import VhostUser.Server.Effects
import VhostUser.Server.Loop
import VhostUser.Server.TxBatch

/-!
Contract: which transmitted packets one iteration of `loop_server` sends back.

Every consumed packet overwrites the server's one-packet buffer; after the
transmit ring is drained, `vhost_user_poll_handler` puts what is in the buffer
on the receive ring. `Consumes` is the effect of everything that happens before
that on the buffer and the observations.
-/

namespace VhostUser.Server

open VhostUser.Lib
open VHostUser

def receivedPackets (trace : List Observation) : List (List UInt8) :=
  trace.filterMap fun entry =>
    match entry with
    | .received packet => some packet
    | _ => none

def placedPackets (index : Fin 2) (trace : List Observation) : List (List UInt8) :=
  trace.filterMap fun entry =>
    match entry with
    | .placed ring packet => if ring = index then some packet else none
    | _ => none

/-! ### Consuming packets -/

/-- The server took in `batch`, of which its buffer keeps the last packet, and placed nothing. -/
structure Consumes (batch : List (List UInt8)) (before after : VHostUser) : Prop where
  received : receivedPackets after.trace = receivedPackets before.trace ++ batch
  placed : placedPackets rxIdx after.trace = placedPackets rxIdx before.trace
  buffer : after.buffer = batch.getLastD before.buffer
  size : ∀ last, batch.getLast? = some last → after.bufferSize.toNat = last.length
  sizeKept : batch = [] → after.bufferSize = before.bufferSize

namespace Consumes

variable {batch later : List (List UInt8)} {before middle after : VHostUser}

theorem nothing (received : receivedPackets after.trace = receivedPackets before.trace)
    (placed : placedPackets rxIdx after.trace = placedPackets rxIdx before.trace)
    (buffer : after.buffer = before.buffer) (size : after.bufferSize = before.bufferSize) :
    Consumes [] before after :=
  ⟨by rw [received, List.append_nil], placed, buffer, by simp, fun _ => size⟩

theorem refl (server : VHostUser) : Consumes [] server server := nothing rfl rfl rfl rfl

theorem trans (first : Consumes batch before middle) (second : Consumes later middle after) :
    Consumes (batch ++ later) before after := by
  refine ⟨?_, second.placed.trans first.placed, ?_, ?_, ?_⟩
  · rw [second.received, first.received, List.append_assoc]
  · rw [second.buffer, first.buffer]
    cases later using List.reverseRecOn with
    | nil => simp
    | append_singleton front last => simp [← List.append_assoc]
  · intro last found
    cases later using List.reverseRecOn with
    | nil =>
      rw [second.sizeKept rfl]
      exact first.size last (by simpa using found)
    | append_singleton front final =>
      exact second.size last (by simpa [← List.append_assoc] using found)
  · intro empty
    obtain ⟨rfl, rfl⟩ := List.append_eq_nil_iff.mp empty
    exact (second.sizeKept rfl).trans (first.sizeKept rfl)

end Consumes

def headPacket (server : VHostUser) (table : UInt64) (head : UInt16) : Option (List UInt8) :=
  match packetOf server table head with
  | .ok (some (_, packet)) => some packet
  | _ => none

def pendingPackets (server : VHostUser) (index : Fin 2) : List (List UInt8) :=
  (pendingHeads server index (firstAIdx (server.vring index))).filterMap
    (headPacket server (server.vring index).desc)

section Consuming

variable {index : Fin 2} {server after : VHostUser} {count : UInt32}

theorem entryEffect_consumes {head : UInt16} (done : entryEffect index server head = .ok after) :
    Consumes (headPacket server (server.vring index).desc head).toList server after := by
  obtain ⟨outcome, rfl⟩ | ⟨len, packet, outcome, rfl⟩ := entryEffect_cases done
  · simp only [headPacket, outcome, Option.toList_none]
    refine .nothing ?_ ?_ rfl rfl <;>
      simp [advanceRing, observe, setRing, receivedPackets, placedPackets]
  obtain ⟨header, small, length⟩ := packetOf_length outcome
  simp only [headPacket, outcome, Option.toList_some]
  refine ⟨?_, ?_, rfl, ?_, by simp⟩
  · simp [advanceRing, observe, setRing, deliver, setUsed, receivedPackets]
  · simp [advanceRing, observe, setRing, deliver, setUsed, placedPackets]
  intro last found
  simp only [List.getLast?_singleton, Option.some.injEq] at found
  subst found
  rw [length]
  simp only [advanceRing, observe, setRing, deliver, setUsed,
    netHdrSize, ethPacketSize] at header small ⊢
  simp only [Nat.toUInt64, UInt64.toNat_toUInt32, UInt64.toNat_sub, UInt32.toNat_toUInt64,
    UInt64.toNat_ofNat']
  omega

theorem runEntries_consumes {heads : List UInt16}
    (done : runEntries index heads server = .ok after) :
    Consumes (heads.filterMap (headPacket server (server.vring index).desc)) server after := by
  refine runEntries_induct done (.refl _) fun head rest server next effect later => ?_
  have keeps := entryEffect_keeps effect
  have same : headPacket next (next.vring index).desc =
      headPacket server (server.vring index).desc := by
    funext other
    unfold headPacket
    rw [keeps.ring, packetOf_congr _ _ keeps.desc keeps.byte keeps.memory]
  have both := (entryEffect_consumes effect).trans later
  rw [same] at both
  rw [List.filterMap_cons]
  cases found : headPacket server (server.vring index).desc head with
  | none => simpa [found] using both
  | some packet => simpa [found] using both

theorem processAvailVring_consumes
    (returned : (processAvailVring index).run server = .ok count after) :
    Consumes (pendingPackets server index) server after := by
  obtain ⟨-, drained, ran, rfl⟩ := processAvailVring_ok returned
  have entered : Consumes [] server (enterAvail server index) := by
    refine .nothing ?_ ?_ rfl rfl <;>
      simp [enterAvail, observe, receivedPackets, placedPackets]
  have published : Consumes [] drained
      (publishUsed drained index (server.vring index).used) := .nothing rfl rfl rfl rfl
  have same : headPacket (enterAvail server index) ((enterAvail server index).vring index).desc =
      headPacket server (server.vring index).desc := by
    funext head
    unfold headPacket
    rw [packetOf_enterAvail]
    rfl
  have all := (entered.trans (runEntries_consumes ran)).trans published
  rw [same] at all
  simpa [pendingPackets] using all

def polledPackets (server : VHostUser) (index : Fin 2) : List (List UInt8) :=
  if (server.vring index).desc ≠ 0 then pendingPackets server index else []

theorem pollAvailVring_consumes (returned : (pollAvailVring index).run server = .ok count after) :
    Consumes (polledPackets server index) server after := by
  rw [pollAvailVring_eq] at returned
  rw [polledPackets, ite_not]
  split at returned
  next absent =>
    cases returned
    rw [if_pos absent]
    exact .refl _
  next set =>
    rw [if_neg set]
    exact processAvailVring_consumes returned

end Consuming

section Handlers

variable {server after : VHostUser}

theorem setMem_consumes (server : VHostUser) (mem : GuestMem) :
    Consumes [] server { server with mem := mem } := .nothing rfl rfl rfl rfl

theorem kickServer_consumes {kickfd count : Int}
    (returned : (kickServer kickfd count).run server = .ok () after) :
    ∃ batch, Consumes batch server after := by
  by_cases failed : count < 0
  · simp only [kickServer, failed, if_true] at returned
    cases returned
    exact ⟨_, .refl _⟩
  by_cases closed : count = 0
  · simp only [kickServer, closed, lt_irrefl, if_false, if_true] at returned
    cases returned
    exact ⟨_, .nothing rfl rfl rfl rfl⟩
  · simp only [kickServer, failed, closed, if_false] at returned
    obtain ⟨_, middle, polled, rest⟩ := bind_ok returned
    cases rest
    exact ⟨_, pollAvailVring_consumes polled⟩

theorem receiveSockServer_consumes {sock : Int} {result : RecvResult} {stale : VHostUserLocalMsg}
    {mmap : Mmap}
    (returned : (receiveSockServer sock result stale mmap).run server = .ok () after) :
    ∃ batch, Consumes batch server after := by
  have handled : ∀ before : VHostUser,
      ((do let _ ← inMsgServer (vhostUserReceive result stale) mmap) : ServerM Unit).run before =
        .ok () after → Consumes [] before after := by
    intro before ran
    obtain ⟨_, middle, dispatched, rest⟩ := bind_ok ran
    cases rest
    obtain ⟨request, -, effect⟩ := inMsgServer_effect dispatched
    exact .nothing (by rw [effect.trace]) (by rw [effect.trace]) effect.buffer.1 effect.buffer.2
  unfold receiveSockServer at returned
  by_cases closed : result = .closed
  · rw [if_pos closed] at returned
    obtain ⟨_, middle, removed, rest⟩ := bind_ok returned
    cases removed
    have unlisted : Consumes [] server
        { server with fdList := delFdList server.fdList .fdRead sock } := .nothing rfl rfl rfl rfl
    exact ⟨_, unlisted.trans (handled _ rest)⟩
  · rw [if_neg closed] at returned
    exact ⟨_, handled _ returned⟩

theorem runHandler_consumes {node : FdNode} {input : HandlerInput}
    (returned : (runHandler node input).run server = .ok () after) :
    ∃ batch, Consumes batch server after := by
  obtain ⟨_, middle, entered, rest⟩ := bind_ok returned
  cases entered
  have start := setMem_consumes server input.mem
  cases kind : node.handler with
  | none =>
    rw [kind] at rest
    cases rest
    exact ⟨_, start⟩
  | some handler =>
    rw [kind] at rest
    cases handler with
    | acceptSockServer =>
      cases rest
      exact ⟨_, start.trans (.nothing rfl rfl rfl rfl)⟩
    | receiveSockServer =>
      obtain ⟨batch, consumes⟩ := receiveSockServer_consumes rest
      exact ⟨_, start.trans consumes⟩
    | kickServer =>
      obtain ⟨batch, consumes⟩ := kickServer_consumes rest
      exact ⟨_, start.trans consumes⟩

theorem processFdSet_consumes {ready : Int → Bool} {input : Fin fdListSize → HandlerInput}
    {indices : List (Fin fdListSize)}
    (returned : (processFdSet ready input indices).run server = .ok () after) :
    ∃ batch, Consumes batch server after := by
  induction indices generalizing server with
  | nil =>
    cases returned
    exact ⟨_, .refl _⟩
  | cons idx rest ih =>
    simp only [processFdSet, EStateM.run_bind, EStateM.run_get] at returned
    by_cases signalled : ready (server.fdList.readFds idx).fd = true
    · rw [if_pos signalled] at returned
      obtain ⟨_, middle, handled, later⟩ := bind_ok returned
      obtain ⟨batch, first⟩ := runHandler_consumes handled
      obtain ⟨more, second⟩ := ih later
      exact ⟨_, first.trans second⟩
    · rw [if_neg signalled] at returned
      exact ih returned

end Handlers

/-! ### The poll handler -/

/-- The transmit ring, if it is configured, holds packets that fit. -/
def TxReady (server : VHostUser) : Prop :=
  (server.vring txIdx).desc ≠ 0 → RingMapped server txIdx ∧
    ∀ head ∈ pendingHeads server txIdx (firstAIdx (server.vring txIdx)),
      HeadDelivers server (server.vring txIdx).desc head

/-- The receive ring can be used, and so can the buffer at its position, for every packet that
passes the length check. -/
structure RxReady (server : VHostUser) : Prop where
  desc : server.mem.mapped (server.vring rxIdx).desc = true
  stores : ∀ packet, packet.length ≤ (server.positionDesc rxIdx).len.toNat →
    ∃ written, Stores server (server.vring rxIdx) (server.vring rxIdx).lastAvailIdx packet written

variable {after server : VHostUser}

theorem RxReady.congr (ready : RxReady server) (ring : after.vring rxIdx = server.vring rxIdx)
    (desc : after.mem.desc = server.mem.desc) (byte : after.mem.byte = server.mem.byte)
    (memory : after.memory = server.memory) : RxReady after := by
  have mapped : ∀ pointer, after.mem.mapped pointer = server.mem.mapped pointer := by
    intro pointer
    rw [GuestMem.mapped, byte]
    rfl
  refine ⟨by rw [ring, mapped, ready.desc], fun packet fits => ?_⟩
  unfold positionDesc at fits
  rw [ring, desc] at fits
  obtain ⟨written, stores⟩ := ready.stores packet fits
  obtain ⟨result, bytes⟩ := writeBytes_of_byte byte stores.bytes
  refine ⟨result, ?_, ?_, ?_⟩
  · rw [← bytes]
    unfold packetPointer
    rw [ring, desc, memory]
  · rw [ring, mapped, stores.avail]
  · rw [ring]
    exact stores.num

theorem pollAvailVring_returns (ready : TxReady server) :
    ∃ count after, (pollAvailVring txIdx).run server = .ok count after := by
  rw [pollAvailVring_eq]
  split
  · exact ⟨0, server, rfl⟩
  next set =>
    obtain ⟨mapped, delivers⟩ := ready set
    obtain ⟨drained, ran⟩ : ∃ drained, runEntries txIdx
        (pendingHeads server txIdx (firstAIdx (server.vring txIdx)))
        (enterAvail server txIdx) = .ok drained := by
      rw [runEntries_ok_iff]
      intro head member
      have delivering := delivers head member
      obtain ⟨entries, chain, -⟩ := delivering
      obtain ⟨len, packet, outcome⟩ :=
        (packetOf_some_iff mapped.desc ⟨entries, chain⟩).mpr (delivers head member)
      exact ⟨_, (packetOf_enterAvail _ _).trans outcome⟩
    exact ⟨_, _, processAvailVring_run mapped.usable ran⟩

theorem pollAvailVring_rx {count : UInt32}
    (returned : (pollAvailVring txIdx).run server = .ok count after) :
    after.vring rxIdx = server.vring rxIdx ∧ after.mem.desc = server.mem.desc ∧
      after.mem.byte = server.mem.byte ∧ after.memory = server.memory := by
  rw [pollAvailVring_eq] at returned
  split at returned
  · cases returned
    exact ⟨rfl, rfl, rfl, rfl⟩
  · have drains := processAvailVring_drains returned
    exact ⟨by rw [drains.rings]; rfl, drains.desc, drains.byte, drains.memory⟩

section Poll

variable {server : VHostUser}

/-- What the poll handler puts on the receive ring, if `content` is in the
buffer by then. -/
def echoOf (server : VHostUser) (content : List UInt8) : List (List UInt8) :=
  if content ≠ [] ∧ content.length ≤ (server.positionDesc rxIdx).len.toNat then [content] else []

def echoBuffer : ServerM Unit := do
  let server ← get
  if server.bufferSize ≠ 0 then
    let _ ← putVring rxIdx (server.buffer.take server.bufferSize.toNat)
    modify fun server => { server with bufferSize := 0 }

theorem echoBuffer_run (rx : RxReady server) :
    ∃ after, echoBuffer.run server = .ok () after ∧
      receivedPackets after.trace = receivedPackets server.trace ∧
      (server.buffer.length = server.bufferSize.toNat →
        placedPackets rxIdx after.trace =
          placedPackets rxIdx server.trace ++ echoOf server server.buffer) := by
  by_cases empty : server.bufferSize = 0
  · refine ⟨server, by simp [echoBuffer, empty], rfl, fun whole => ?_⟩
    rw [empty] at whole
    simp [echoOf, List.eq_nil_of_length_eq_zero whole]
  by_cases large : (server.positionDesc rxIdx).len.toNat <
      (server.buffer.take server.bufferSize.toNat).length
  · refine ⟨_, by simp [echoBuffer, empty, putVring_refuses rx.desc large]; rfl, ?_, ?_⟩
    · simp [enterPut, observe, receivedPackets]
    · intro whole
      rw [List.take_of_length_le whole.le] at large
      simp [enterPut, observe, placedPackets, echoOf, Nat.not_le.mpr large]
  have fits := Nat.le_of_not_lt large
  obtain ⟨written, stores⟩ := rx.stores _ fits
  refine ⟨_, by simp [echoBuffer, empty, putVring_accepts rx.desc fits stores]; rfl, ?_, ?_⟩
  · simp [putVringDone, storedPut, movedPut, setRing, enterPut, observe, receivedPackets]
  intro whole
  have nonempty : server.buffer ≠ [] := by
    rintro none
    rw [none] at whole
    exact empty (UInt32.toNat_inj.mp whole.symm)
  rw [List.take_of_length_le whole.le] at fits ⊢
  simp [putVringDone, storedPut, movedPut, setRing, enterPut, observe,
    placedPackets, echoOf, nonempty, fits]

end Poll

/-! ### One iteration -/

/-- What the poll handler takes in: nothing before the receive ring is set. -/
def pollBatch (server : VHostUser) : List (List UInt8) :=
  if (server.vring rxIdx).desc ≠ 0 then polledPackets server txIdx else []

/-- Whenever an iteration consumes packets, it puts exactly these on the receive
ring, in order. -/
def EchoesBatch (server : VHostUser) (ready : Int → Bool) (input : Fin fdListSize → HandlerInput)
    (pollMem : GuestMem) : Prop :=
  ∃ after batch, (loopServer ready input pollMem).run server = .ok () after ∧
    receivedPackets after.trace = receivedPackets server.trace ++ batch ∧
    (batch ≠ [] → placedPackets rxIdx after.trace = placedPackets rxIdx server.trace ++ batch)

section Iteration

variable {server middle : VHostUser} {ready : Int → Bool} {input : Fin fdListSize → HandlerInput}
  {pollMem : GuestMem} {kicked : List (List UInt8)}

theorem loopServer_eq
    (fdPhase : (processFdSet (selected server.fdList ready) input (List.finRange fdListSize)).run
      server = .ok () middle) :
    (loopServer ready input pollMem).run server =
      vhostUserPollHandler.run { middle with mem := pollMem } := by
  simp [loopServer, fdPhase]

/-- The poll handler sends back the last packet at most. -/
theorem vhostUserPollHandler_run {poller : VHostUser} (consumes : Consumes kicked server poller)
    (tx : (poller.vring rxIdx).desc ≠ 0 → TxReady poller)
    (rx : (poller.vring rxIdx).desc ≠ 0 → RxReady poller) :
    ∃ after, vhostUserPollHandler.run poller = .ok () after ∧
      receivedPackets after.trace = receivedPackets server.trace ++ (kicked ++ pollBatch poller) ∧
      ∀ last, (kicked ++ pollBatch poller).getLast? = some last →
        placedPackets rxIdx after.trace = placedPackets rxIdx server.trace ++
          (if (poller.vring rxIdx).desc ≠ 0 then echoOf poller last else []) := by
  by_cases unset : (poller.vring rxIdx).desc = 0
  · refine ⟨poller, by simp [vhostUserPollHandler, unset], ?_, fun last _ => ?_⟩
    · simp [pollBatch, unset, consumes.received]
    · simp [unset, consumes.placed]
  obtain ⟨count, drained, polled⟩ := pollAvailVring_returns (tx unset)
  obtain ⟨ring, desc, byte, memory⟩ := pollAvailVring_rx polled
  have all := consumes.trans (pollAvailVring_consumes polled)
  have position : drained.positionDesc rxIdx = poller.positionDesc rxIdx := by
    unfold positionDesc
    rw [ring, desc]
  have rxDrained := (rx unset).congr ring desc byte memory
  obtain ⟨after, ran, received, placed⟩ := echoBuffer_run rxDrained
  refine ⟨after, ?_, ?_, fun last found => ?_⟩
  · rw [← ran]
    simp [vhostUserPollHandler, unset, polled, echoBuffer]
  · rw [received, all.received]
    simp [pollBatch, unset]
  simp only [pollBatch, unset, ne_eq, not_false_eq_true, if_true] at found ⊢
  have buffered : drained.buffer = last := by
    rw [all.buffer, List.getLastD_eq_getLast?, found]
    rfl
  have whole : drained.buffer.length = drained.bufferSize.toNat := by
    rw [buffered, all.size last found]
  rw [placed whole, all.placed, buffered]
  simp [echoOf, position]

/-- An iteration sends its batch back if and only if this is at most one packet, with a payload
and a receive ring whose position denotes a large enough descriptor. -/
theorem loopServer_echoes_iff
    (fdPhase : (processFdSet (selected server.fdList ready) input (List.finRange fdListSize)).run
      server = .ok () middle)
    (kicks : receivedPackets middle.trace = receivedPackets server.trace ++ kicked)
    (tx : (middle.vring rxIdx).desc ≠ 0 → TxReady { middle with mem := pollMem })
    (rx : (middle.vring rxIdx).desc ≠ 0 → RxReady { middle with mem := pollMem }) :
    EchoesBatch server ready input pollMem ↔
      (kicked ++ pollBatch { middle with mem := pollMem }).length ≤ 1 ∧
      ∀ packet ∈ kicked ++ pollBatch { middle with mem := pollMem },
        packet ≠ [] ∧ (middle.vring rxIdx).desc ≠ 0 ∧
        packet.length ≤
          (VHostUser.positionDesc { middle with mem := pollMem } rxIdx).len.toNat := by
  obtain ⟨consumed, first⟩ := processFdSet_consumes fdPhase
  obtain rfl : consumed = kicked := List.append_cancel_left (first.received.symm.trans kicks)
  have consumes := first.trans (setMem_consumes middle pollMem)
  rw [List.append_nil] at consumes
  obtain ⟨after, ran, received, placed⟩ := vhostUserPollHandler_run consumes tx rx
  have total := (@loopServer_eq _ _ _ _ pollMem fdPhase).trans ran
  generalize consumed ++ pollBatch { middle with mem := pollMem } = batch at received placed ⊢
  constructor
  · rintro ⟨other, otherBatch, ranOther, receivedOther, echoed⟩
    rw [total] at ranOther
    cases ranOther
    obtain rfl : batch = otherBatch := List.append_cancel_left (received.symm.trans receivedOther)
    by_cases empty : batch = []
    · simp [empty]
    have echo := List.append_cancel_left
      ((echoed empty).symm.trans (placed _ (List.getLast?_eq_some_getLast empty)))
    unfold echoOf at echo
    split_ifs at echo with set fits
    · rw [echo]
      simpa using ⟨fits.1, set, fits.2⟩
    · exact absurd echo empty
    · exact absurd echo empty
  · rintro ⟨single, fits⟩
    refine ⟨after, batch, total, received, fun nonempty => ?_⟩
    obtain ⟨packet, rfl⟩ := List.length_eq_one_iff.mp
      (le_antisymm single (List.length_pos_iff.mpr nonempty))
    obtain ⟨payload, set, small⟩ := fits packet (by simp)
    rw [placed packet rfl]
    simp [echoOf, payload, set, small]

end Iteration

/-! ### One frame and two frames -/

def echoMem (published : UInt16) : GuestMem where
  desc := fun base _ => if base = 0x4000 then ⟨0x40, 74, 0, 0⟩ else ⟨0x8000, 2048, 0, 0⟩
  avail := fun _ => ⟨published, fun _ => 0⟩
  used := fun _ => ⟨0, fun _ => ⟨0, 0⟩⟩
  byte := fun _ => some 0

def echoServer (published : UInt16) : VHostUser :=
  { fresh (echoMem published) with
    memory := ⟨1, fun _ => ⟨0, 0x100000, 0, 0x100000⟩⟩
    vring := fun index => if index = rxIdx then ⟨-1, -1, 0x1000, 0x2000, 0x3000, 2, 0, 0⟩
      else ⟨-1, -1, 0x4000, 0x5000, 0x6000, 2, 0, 0⟩ }

def quiet : Int → Bool := fun _ => false

def idleInput : Fin fdListSize → HandlerInput :=
  fun _ => ⟨.unmapped, .failed, .zero, fun _ => none, -1, -1⟩

theorem processFdSet_quiet (server : VHostUser) (list : FdList) (indices : List (Fin fdListSize)) :
    (processFdSet (selected list quiet) idleInput indices).run server = .ok () server := by
  induction indices with
  | nil => rfl
  | cons idx rest ih =>
    simpa [processFdSet, selected, quiet] using ih

theorem echoServer_txReady : TxReady (echoServer 1) := by
  intro _
  refine ⟨⟨⟨(by decide : (2 : UInt32) ≠ 0), rfl, rfl⟩, rfl⟩, fun head _ => ?_⟩
  have chain : Chain (descNext ((echoServer 1).mem.desc 0x4000)) head.toNat [head.toNat] := by
    refine .stop ?_
    simp [descNext, echoServer, fresh, echoMem, descFNext]
  refine ⟨_, chain, ?_⟩
  change Readable (echoServer 1) (fitting 0 [⟨0x40, 74, 0, 0⟩]) ∧ NoWrap 0 [⟨0x40, 74, 0, 0⟩] ∧
    netHdrSize ≤ totalLen (fitting 0 [⟨0x40, 74, 0, 0⟩])
  have all : fitting 0 [⟨0x40, 74, 0, 0⟩] = [⟨0x40, 74, 0, 0⟩] := by decide
  refine ⟨?_, ?_, by decide⟩
  · intro desc member
    rw [all, List.mem_singleton] at member
    subst member
    decide
  · intro desc found
    simp [all] at found

theorem echoServer_rxReady (published : UInt16) : RxReady (echoServer published) where
  desc := rfl
  stores := fun packet _ => by
    obtain ⟨written, bytes⟩ := @writeBytes_of_mapped (echoServer published).mem (fun _ => rfl)
      (packetPointer (echoServer published) ((echoServer published).vring rxIdx) 0) (framed packet)
    exact ⟨written, bytes, rfl, (by decide : (2 : UInt32) ≠ 0)⟩

/-- A single frame comes back. -/
theorem loopServer_echoes_frame : EchoesBatch (echoServer 1) quiet idleInput (echoMem 1) := by
  refine (loopServer_echoes_iff (processFdSet_quiet _ _ _) (List.append_nil _).symm
    (fun _ => echoServer_txReady) (fun _ => echoServer_rxReady 1)).mpr ?_
  decide

def quietTotals (published : UInt16) : Option (Nat × Nat) :=
  match (loopServer quiet idleInput (echoMem published)).run (echoServer published) with
  | .ok _ after => some ((receivedPackets after.trace).length,
      (placedPackets rxIdx after.trace).length)
  | .error _ _ => none

/-- Of two frames only one comes back. -/
theorem loopServer_loses_frame : ¬ EchoesBatch (echoServer 2) quiet idleInput (echoMem 2) := by
  rintro ⟨after, batch, ran, received, placed⟩
  have totals : quietTotals 2 = some (2, 1) := by decide +kernel
  simp only [quietTotals, ran, received, Option.some.injEq, Prod.mk.injEq] at totals
  have two : batch.length = 2 := totals.1
  have nonempty : batch ≠ [] := by
    rintro rfl
    simp at two
  rw [placed nonempty] at totals
  exact absurd (two.symm.trans totals.2) (by decide)

end VhostUser.Server
