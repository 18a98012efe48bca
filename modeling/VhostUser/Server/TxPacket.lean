import VhostUser.Server.TxBatch

/-!
Contract: which bytes of a descriptor chain `process_desc` hands to `avail_handler`.

The chain's buffers are copied into a buffer of `ETH_PACKET_SIZE` bytes, and the loop stops at the
descriptor with which the total would reach that size. The packet itself is kept in a buffer of
`BUFFER_SIZE` bytes, a header longer.

Owns: the lengths for which the packet is the whole chain without its header.

Does not own: chains that are not readable or do not end (`TxWalk`).
-/

namespace VhostUser.Server

open VhostUser.Lib

def chainBytes (server : VHostUser) : List VringDesc → Option (List UInt8)
  | [] => some []
  | desc :: rest => do
      let data ← server.mem.readBytes (mapGuestAddr server.memory desc.addr) desc.len.toNat
      let later ← chainBytes server rest
      return data ++ later

section Bytes

variable {server : VHostUser} {descs : List VringDesc} {data : List UInt8}

theorem chainBytes_cons {desc : VringDesc} (bytes : chainBytes server (desc :: descs) = some data) :
    ∃ first later,
      server.mem.readBytes (mapGuestAddr server.memory desc.addr) desc.len.toNat = some first ∧
        chainBytes server descs = some later ∧ data = first ++ later := by
  obtain ⟨first, read, rest⟩ := Option.bind_eq_some_iff.mp bytes
  obtain ⟨later, readLater, same⟩ := Option.bind_eq_some_iff.mp rest
  exact ⟨first, later, read, readLater, (Option.some.inj same).symm⟩

/-- A chain that stays below the limit is copied as a whole, however it is split. -/
theorem gatherChain_whole (bytes : chainBytes server descs = some data) {len : UInt32}
    {buf : List UInt8} (fits : len.toNat + data.length < ethPacketSize) :
    gatherChain server descs len buf = .ok (len + .ofNat data.length, buf ++ data) := by
  induction descs generalizing len buf data with
  | nil =>
    cases bytes
    simp [gatherChain]
  | cons desc rest ih =>
    obtain ⟨first, later, read, readLater, rfl⟩ := chainBytes_cons bytes
    have length := GuestMem.readBytes_length read
    rw [List.length_append, length] at fits
    have sum : (len + desc.len).toNat = len.toNat + desc.len.toNat := by
      rw [UInt32.toNat_add]
      unfold ethPacketSize at fits
      omega
    rw [gatherChain, sum, if_pos (by omega), if_neg (by omega), read]
    dsimp only
    rw [ih readLater (by rw [sum]; omega), List.length_append, length,
      List.append_assoc, UInt32.ofNat_add, UInt32.ofNat_toNat, UInt32.add_assoc]

end Bytes

/-- The call handed over `data` without its header, and returned the chain with the length of
`data`. -/
structure HandedOver (server : VHostUser) (index : Fin 2) (head : UInt16) (data : List UInt8)
    (after : VHostUser) : Prop where
  passed : after.trace = server.trace ++ [.received (data.drop netHdrSize)]
  used : (after.mem.used (server.vring index).used).ring
      ((server.vring index).lastUsedIdx.toUInt32 % (server.vring index).num).toUInt16.toNat =
    ⟨head.toUInt32, .ofNat data.length⟩

theorem deliver_used (server : VHostUser) (index : Fin 2) (head : UInt16) (len : UInt32)
    (packet : List UInt8) :
    ((deliver server index head len packet).mem.used (server.vring index).used).ring
      ((server.vring index).lastUsedIdx.toUInt32 % (server.vring index).num).toUInt16.toNat =
        ⟨head.toUInt32, len⟩ := by
  simp [deliver, VHostUser.setUsed, VHostUser.observe, usedRingSet]

/-- A finite readable chain with a header, of at most `BUFFER_SIZE` bytes, is handed over whole
exactly when it is below `ETH_PACKET_SIZE`. -/
theorem processDesc_handsOver_iff (server : VHostUser) (index : Fin 2) (aIdx : UInt32)
    (head : UInt16) (entries : List Nat) (data : List UInt8) (mapped : RingMapped server index)
    (headEq : (server.mem.avail (server.vring index).avail).ring aIdx.toNat = head)
    (chain : Chain (descNext (server.mem.desc (server.vring index).desc)) head.toNat entries)
    (bytes : chainBytes server (entries.map (server.mem.desc (server.vring index).desc)) =
      some data)
    (header : netHdrSize ≤ data.length) (kept : data.length ≤ bufferSizeMax) :
    (∃ code after, (processDesc index aIdx).run server = .ok code after ∧
      HandedOver server index head data after) ↔ data.length < ethPacketSize := by
  constructor
  · rintro ⟨code, after, returned, passed, used⟩
    have cases := processDesc_cases returned
    rw [headEq] at cases
    obtain ⟨-, rfl⟩ | ⟨len, packet, outcome, rfl⟩ := cases
    · simp at passed
    obtain ⟨-, small, -⟩ := packetOf_length outcome
    rw [deliver_used] at used
    have same := congrArg (fun elem : VringUsedElem => elem.len.toNat) used
    simp only [UInt32.toNat_ofNat'] at same
    unfold bufferSizeMax netHdrSize ethPacketSize at kept
    omega
  · intro fits
    have gathered : gather server (server.vring index).desc chainFuel head.toUInt32 0 [] =
        .ok (.ofNat data.length, data) := by
      rw [gather_head mapped.desc chain, gatherChain_whole bytes (by simpa using fits)]
      simp
    have length : (UInt32.ofNat data.length).toNat = data.length := by
      rw [UInt32.toNat_ofNat']
      unfold ethPacketSize at fits
      omega
    have outcome : packetOf server (server.vring index).desc head =
        .ok (some (.ofNat data.length, data.drop netHdrSize)) := by
      rw [packetOf, gathered]
      dsimp only
      rw [if_neg, if_neg (by omega)]
      intro zero
      rw [zero] at length
      unfold netHdrSize at header
      simp only [UInt32.toNat_zero] at length
      omega
    obtain ⟨_, ran⟩ := processDesc_run mapped.usable headEq
    rw [outcome] at ran
    exact ⟨0, _, ran, rfl, deliver_used server index head _ _⟩

def headerAndFrame (frame : UInt32) : VHostUser :=
  let server := oneHeadServer ⟨0x40, 10, descFNext, 1⟩ 0
  { server with mem := { server.mem with
      desc := fun _ i => if i = 0 then ⟨0x40, 10, descFNext, 1⟩ else ⟨0x1000, frame, 0, 0⟩ } }

theorem headerAndFrame_mapped (frame : UInt32) (index : Fin 2) :
    RingMapped (headerAndFrame frame) index where
  usable := ⟨(by decide : (1 : UInt32) ≠ 0), rfl, rfl⟩
  desc := rfl

theorem headerAndFrame_chain (frame : UInt32) (index : Fin 2) :
    Chain (descNext ((headerAndFrame frame).mem.desc ((headerAndFrame frame).vring index).desc))
      (0 : UInt16).toNat [0, 1] := by
  refine .link ?_ (.stop ?_)
  · simp [descNext, headerAndFrame, descFNext]
  · simp [descNext, headerAndFrame]

/-- A frame of 60 bytes is handed over. -/
theorem processDesc_handsOver_frame : ∃ code after,
    (processDesc txIdx 0).run (headerAndFrame 60) = .ok code after ∧
      HandedOver (headerAndFrame 60) txIdx 0 (List.replicate 70 0) after :=
  (processDesc_handsOver_iff (headerAndFrame 60) txIdx 0 0 [0, 1] (List.replicate 70 0)
    (headerAndFrame_mapped 60 txIdx) rfl (headerAndFrame_chain 60 txIdx) (by decide +kernel)
    (by decide) (by decide)).mpr (by decide)

/-- A chain of 1518 bytes, the header and 1508 bytes of a frame: only the header is taken. -/
theorem processDesc_cuts_frame :
    RingMapped (headerAndFrame 1508) txIdx ∧
      chainBytes (headerAndFrame 1508)
        ([0, 1].map ((headerAndFrame 1508).mem.desc ((headerAndFrame 1508).vring txIdx).desc)) =
          some (List.replicate 1518 0) ∧
      netHdrSize ≤ 1518 ∧ 1518 ≤ bufferSizeMax ∧
      ¬ ∃ code after, (processDesc txIdx 0).run (headerAndFrame 1508) = .ok code after ∧
        HandedOver (headerAndFrame 1508) txIdx 0 (List.replicate 1518 0) after := by
  refine ⟨headerAndFrame_mapped 1508 txIdx, by decide +kernel, by decide, by decide, ?_⟩
  rintro ⟨code, after, returned, -, used⟩
  have gathered : gather (headerAndFrame 1508) ((headerAndFrame 1508).vring txIdx).desc chainFuel
      (0 : UInt16).toUInt32 0 [] = .ok (10, List.replicate 10 0) :=
    (gather_head (headerAndFrame_mapped 1508 txIdx).desc (headerAndFrame_chain 1508 txIdx)).trans
      (by decide +kernel)
  have outcome : packetOf (headerAndFrame 1508) ((headerAndFrame 1508).vring txIdx).desc 0 =
      .ok (some (10, [])) := by
    rw [packetOf, gathered]
    rfl
  obtain ⟨_, ran⟩ := @processDesc_run _ _ 0 0 (headerAndFrame_mapped 1508 txIdx).usable rfl
  rw [outcome, returned] at ran
  cases ran
  rw [deliver_used, List.length_replicate] at used
  exact absurd (congrArg VringUsedElem.len used) (by decide)

end VhostUser.Server
