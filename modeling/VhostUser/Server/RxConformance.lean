import VhostUser.Server.RxRing
import VhostUser.Server.TxBatch

/-!
Contract: the receive path against the rules of a virtio device.

A device takes the next unconsumed head from the avail ring, stays inside the
buffer the guest posted, completes the head in the used ring and leaves the
descriptor table and the avail ring to the guest. `put_vring` and
`put_rx_vring` append to the avail ring whenever they accept a packet, so a run
of calls follows the rules only as long as every packet is refused.
-/

namespace VhostUser.Server

structure GuestWrite where
  apply : GuestMem → GuestMem
  mapped : ∀ mem pointer, (apply mem).mapped pointer = mem.mapped pointer

inductive PutFunction where
  | putVring
  | putRxVring
deriving DecidableEq, Repr

structure PutCall where
  guest : GuestWrite
  function : PutFunction
  packet : List UInt8

def PutCall.run (call : PutCall) (index : Fin 2) : ServerM Int :=
  match call.function with
  | .putVring => putVring index call.packet
  | .putRxVring => putRxVring index call.packet

def PutCall.enter (call : PutCall) (server : VHostUser) : VHostUser :=
  { server with mem := call.guest.apply server.mem }

def nextHead (server : VHostUser) (index : Fin 2) : UInt16 :=
  let ring := server.vring index
  (server.mem.avail ring.avail).ring (ring.lastAvailIdx.toNat % ring.num.toNat)

structure Completes (index : Fin 2) (packet : List UInt8) (before after : VHostUser) : Prop where
  room : netHdrSize + packet.length ≤
    (before.mem.desc (before.vring index).desc (nextHead before index).toNat).len.toNat
  stored : ∃ written, before.mem.writeBytes
      (packetPointer before (before.vring index) (nextHead before index)) (framed packet) =
        some written ∧ after.mem.byte = written.byte
  used : after.mem.used (before.vring index).used =
    appendUsed (before.mem.used (before.vring index).used) (before.vring index).num
      ⟨(nextHead before index).toUInt32, .ofNat (netHdrSize + packet.length)⟩
  position : (after.vring index).lastAvailIdx = (before.vring index).lastAvailIdx + 1
  desc : after.mem.desc = before.mem.desc
  avail : after.mem.avail = before.mem.avail

/-- One call returns; it completes a packet it accepts, and it refuses when the
avail ring has no unconsumed head. -/
structure PutConforms (index : Fin 2) (packet : List UInt8) (before : VHostUser) (code : Int)
    (after : VHostUser) : Prop where
  accepted : code = 0 → Completes index packet before after
  exhausted : (before.vring index).lastAvailIdx =
    (before.mem.avail (before.vring index).avail).idx → code ≠ 0

/-- A run of calls, with the guest at work in between. -/
def PutsConform (index : Fin 2) : List PutCall → VHostUser → Prop
  | [], _ => True
  | call :: rest, server => ∃ code after,
      (call.run index).run (call.enter server) = .ok code after ∧
      PutConforms index call.packet (call.enter server) code after ∧
      PutsConform index rest after

/-- Every packet is longer than the descriptor at the ring's position when its call is made. -/
def AllTooLong (ring : Vring) : List PutCall → GuestMem → Prop
  | [], _ => True
  | call :: rest, mem =>
    ((call.guest.apply mem).desc ring.desc ring.lastAvailIdx.toNat).len.toNat < call.packet.length ∧
    AllTooLong ring rest (call.guest.apply mem)

section Call

variable {call : PutCall} {index : Fin 2} {server after : VHostUser} {code : Int}

theorem PutCall.refuses (mapped : PartsMapped server.mem (server.vring index))
    (large : (server.positionDesc index).len.toNat < call.packet.length) :
    ∃ function, (call.run index).run server = .ok (-1) (enterPut server function index) := by
  unfold PutCall.run
  cases call.function with
  | putVring => exact ⟨_, putVring_refuses mapped.desc large⟩
  | putRxVring =>
    exact ⟨_, (putRxVring_eq ..).trans (putFrom_refuses
      (by simp [mapped.desc, mapped.avail, mapped.used]) large)⟩

section

variable (fits : call.packet.length ≤ (server.positionDesc index).len.toNat)
  (returned : (call.run index).run server = .ok code after)
include fits returned

theorem PutCall.accepts_avail :
    code = 0 ∧ after.mem.avail (server.vring index).avail =
      appendAvail (server.mem.avail (server.vring index).avail) (server.vring index).num
        (server.vring index).lastAvailIdx := by
  unfold PutCall.run at returned
  cases kind : call.function with
  | putVring =>
    rw [kind, putVring_eq] at returned
    rcases putFrom_ok returned with ⟨large, -⟩ | ⟨done, written, rfl⟩
    · exact absurd large (Nat.not_lt.mpr fits)
    · refine ⟨done, ?_⟩
      simp [storedPut, storedMem, GuestMem.setAvail, VHostUser.observe, putVringRing]
  | putRxVring =>
    rw [kind, putRxVring_eq] at returned
    rcases putFrom_ok returned with ⟨large, -⟩ | ⟨done, written, rfl⟩
    · exact absurd large (Nat.not_lt.mpr fits)
    · refine ⟨done, ?_⟩
      simp [storedPut, storedMem, GuestMem.setAvail, VHostUser.observe,
        VHostUser.setUsed, putRxVringRing]

theorem PutCall.not_conforms : ¬ PutConforms index call.packet server code after := by
  intro conforms
  obtain ⟨done, appended⟩ := PutCall.accepts_avail fits returned
  have kept := congrArg VringAvail.idx
    ((congrFun (conforms.accepted done).avail (server.vring index).avail).symm.trans appended)
  have moved := congrArg UInt16.toNat kept
  simp only [appendAvail, UInt16.toNat_add, UInt16.reduceToNat] at moved
  omega

end

end Call

/-! ### Runs -/

/-- A run of calls follows the rules if and only if it accepts no packet. -/
theorem putsConform_iff (index : Fin 2) (calls : List PutCall) (server : VHostUser)
    (mapped : PartsMapped server.mem (server.vring index)) :
    PutsConform index calls server ↔ AllTooLong (server.vring index) calls server.mem := by
  induction calls generalizing server with
  | nil => exact Iff.rfl
  | cons call rest ih =>
    have entered : PartsMapped (call.enter server).mem ((call.enter server).vring index) :=
      ⟨(call.guest.mapped _ _).trans mapped.desc, (call.guest.mapped _ _).trans mapped.avail,
        (call.guest.mapped _ _).trans mapped.used⟩
    constructor
    · rintro ⟨code, after, returned, conforms, later⟩
      have large : ((call.enter server).positionDesc index).len.toNat < call.packet.length := by
        by_contra small
        exact PutCall.not_conforms (Nat.le_of_not_lt small) returned conforms
      obtain ⟨function, refused⟩ := PutCall.refuses entered large
      rw [refused] at returned
      cases returned
      exact ⟨large, (ih (enterPut (call.enter server) function index) entered).mp later⟩
    · rintro ⟨large, later⟩
      obtain ⟨function, refused⟩ := @PutCall.refuses call index _ entered large
      refine ⟨_, _, refused, ⟨fun zero => absurd zero (by decide), fun _ => by decide⟩, ?_⟩
      exact (ih (enterPut (call.enter server) function index) entered).mpr later

def GuestWrite.none : GuestWrite := ⟨id, fun _ _ => rfl⟩

def silentCall (function : PutFunction) (length : Nat) : PutCall :=
  ⟨.none, function, List.replicate length 0⟩

/-- Packets for descriptors without room are refused. -/
theorem putsConform_no_room :
    PutsConform rxIdx [silentCall .putVring 64, silentCall .putRxVring 64]
      (oneHeadServer ⟨0x40, 0, 0, 0⟩ 0) := by
  refine (putsConform_iff rxIdx _ _ ⟨rfl, rfl, rfl⟩).mpr ?_
  change (0 : UInt32).toNat < 64 ∧ (0 : UInt32).toNat < 64 ∧ True
  decide

theorem silentCall_not_conforms (function : PutFunction) :
    ¬ PutsConform rxIdx [silentCall function 64] (oneHeadServer ⟨0x40, 2048, 0, 0⟩ 0) := by
  rintro ⟨code, after, returned, conforms, -⟩
  refine PutCall.not_conforms ?_ returned conforms
  change (List.replicate 64 (0 : UInt8)).length ≤ (2048 : UInt32).toNat
  decide

/-- Either function breaks the rules with its first packet for a large
descriptor. -/
theorem putsConform_fails_on_frame :
    ¬ PutsConform rxIdx [silentCall .putVring 64] (oneHeadServer ⟨0x40, 2048, 0, 0⟩ 0) ∧
      ¬ PutsConform rxIdx [silentCall .putRxVring 64] (oneHeadServer ⟨0x40, 2048, 0, 0⟩ 0) :=
  ⟨silentCall_not_conforms _, silentCall_not_conforms _⟩

end VhostUser.Server
