import VhostUser.Server.State

/-!
Contract: the receive path of the server (`put_vring`, `put_rx_vring`).

Both functions take `last_avail_idx` for the index of a descriptor, store the
packet behind a zeroed header in its buffer, and then, like a driver would, mark
the descriptor and append it to the avail ring. `put_rx_vring` also writes a
used entry.

A packet is the byte string `buf` of length `size`.
-/

namespace VhostUser.Server

def vringIdxNone : UInt16 := 0xffff

def framed (packet : List UInt8) : List UInt8 :=
  List.replicate netHdrSize 0 ++ packet

def filledDesc (desc : VringDesc) (packet : List UInt8) : VringDesc :=
  { desc with len := .ofNat (netHdrSize + packet.length), flags := 0, next := vringIdxNone }

def appendAvail (avail : VringAvail) (num : UInt32) (aIdx : UInt16) : VringAvail where
  idx := avail.idx + 1
  ring := Function.update avail.ring (avail.idx.toUInt32 % num).toNat aIdx

def appendUsed (used : VringUsed) (num : UInt32) (elem : VringUsedElem) : VringUsed where
  idx := used.idx + 1
  ring := Function.update used.ring (used.idx.toUInt32 % num).toNat elem

/-- What `put_vring` and `put_rx_vring` share: the packet goes to the buffer of descriptor `aIdx`,
which is appended to the avail ring. -/
def storePacket (index : Fin 2) (aIdx : UInt16) (packet : List UInt8) : ServerM Unit := do
  let server ← get
  let ring := server.vring index
  let desc := server.mem.desc ring.desc aIdx.toNat
  match server.mem.writeBytes (mapGuestAddr server.memory desc.addr) (framed packet) with
  | none => throw .badAddress
  | some mem =>
    set { server with mem := mem.setDesc ring.desc aIdx.toNat (filledDesc desc packet) }
    deref ring.avail
    if ring.num = 0 then throw .divByZero
    modify fun server => { server with
      mem := server.mem.setAvail ring.avail
        (appendAvail (server.mem.avail ring.avail) ring.num aIdx) }

def putVring (index : Fin 2) (packet : List UInt8) : ServerM Int := do
  let server ← get
  let ring := server.vring index
  set (server.observe (.entered .putVring index ring server.memory))
  deref ring.desc
  let desc := server.mem.desc ring.desc ring.lastAvailIdx.toNat
  if desc.len.toNat < packet.length then return -1
  modify fun server => server.setRing index { ring with lastAvailIdx := desc.next }
  storePacket index ring.lastAvailIdx packet
  modify fun server => server.observe (.placed index packet)
  return 0

/-- `put_rx_vring`. Its log line reads all three parts of the ring first. -/
def putRxVring (index : Fin 2) (packet : List UInt8) : ServerM Int := do
  let server ← get
  let ring := server.vring index
  set (server.observe (.entered .putRxVring index ring server.memory))
  deref ring.desc
  deref ring.avail
  deref ring.used
  let desc := server.mem.desc ring.desc
  if (desc ring.lastAvailIdx.toNat).len.toNat < packet.length then return -1
  modify fun server => server.setRing index { ring with
    lastAvailIdx := (desc ring.lastAvailIdx.toNat).next
    lastUsedIdx := (desc ring.lastUsedIdx.toNat).next }
  storePacket index ring.lastAvailIdx packet
  let elem : VringUsedElem := ⟨ring.lastUsedIdx.toUInt32, .ofNat (netHdrSize + packet.length)⟩
  modify fun server => server.setUsed ring.used
    (appendUsed (server.mem.used ring.used) ring.num elem)
  modify fun server => server.observe (.placed index packet)
  return 0

/-! ### Storing a packet -/

variable {data : List UInt8} {mem : GuestMem} {pointer : UInt64}

theorem writeBytes_keeps {after : GuestMem} (written : mem.writeBytes pointer data = some after) :
    after.desc = mem.desc ∧ after.avail = mem.avail ∧ after.used = mem.used ∧
      ∀ other, after.mapped other = mem.mapped other := by
  induction data generalizing mem pointer with
  | nil =>
    cases written
    exact ⟨rfl, rfl, rfl, fun _ => rfl⟩
  | cons head tail ih =>
    simp only [GuestMem.writeBytes] at written
    split at written
    · rename_i mapped
      obtain ⟨desc, avail, used, later⟩ := ih written
      refine ⟨desc, avail, used, fun other => (later other).trans ?_⟩
      by_cases here : other = pointer
      · subst here
        simpa [GuestMem.mapped] using mapped.symm
      · simp [GuestMem.mapped, here]
    · simp at written

theorem writeBytes_of_mapped {mem : GuestMem} (mapped : ∀ pointer, mem.mapped pointer = true)
    (pointer : UInt64) (data : List UInt8) :
    ∃ written, mem.writeBytes pointer data = some written := by
  induction data generalizing mem pointer with
  | nil => exact ⟨mem, rfl⟩
  | cons head tail ih =>
    simp only [GuestMem.writeBytes, mapped, if_true]
    refine ih (fun other => ?_) _
    by_cases here : other = pointer
    · simp [GuestMem.mapped, here]
    · simpa [GuestMem.mapped, here] using mapped other

theorem writeBytes_of_byte {other written : GuestMem} (byte : other.byte = mem.byte)
    (done : mem.writeBytes pointer data = some written) :
    ∃ result, other.writeBytes pointer data = some result := by
  induction data generalizing mem other pointer with
  | nil => exact ⟨other, rfl⟩
  | cons head tail ih =>
    have same : other.mapped pointer = mem.mapped pointer := by
      rw [GuestMem.mapped, byte]
      rfl
    simp only [GuestMem.writeBytes, same] at done ⊢
    by_cases mapped : mem.mapped pointer = true
    · rw [if_pos mapped] at done ⊢
      exact ih (congrArg (Function.update · pointer (some head)) byte) done
    · simp [mapped] at done

section Store

variable {server after : VHostUser} {index : Fin 2} {packet : List UInt8} {aIdx : UInt16}
  {written : GuestMem} {code : Int}

def packetPointer (server : VHostUser) (ring : Vring) (aIdx : UInt16) : UInt64 :=
  mapGuestAddr server.memory (server.mem.desc ring.desc aIdx.toNat).addr

def storedMem (mem : GuestMem) (ring : Vring) (aIdx : UInt16) (packet : List UInt8)
    (written : GuestMem) : GuestMem :=
  (written.setDesc ring.desc aIdx.toNat
    (filledDesc (mem.desc ring.desc aIdx.toNat) packet)).setAvail ring.avail
      (appendAvail (mem.avail ring.avail) ring.num aIdx)

structure Stores (server : VHostUser) (ring : Vring) (aIdx : UInt16) (packet : List UInt8)
    (written : GuestMem) : Prop where
  bytes : server.mem.writeBytes (packetPointer server ring aIdx) (framed packet) = some written
  avail : server.mem.mapped ring.avail = true
  num : ring.num ≠ 0

theorem storePacket_run (stores : Stores server (server.vring index) aIdx packet written) :
    (storePacket index aIdx packet).run server =
      .ok ()
        { server with mem := storedMem server.mem (server.vring index) aIdx packet written } := by
  obtain ⟨-, avail, -, mapped⟩ := writeBytes_keeps stores.bytes
  have bytes := stores.bytes
  unfold packetPointer at bytes
  simp [storePacket, bytes, deref, mapped, stores.avail, stores.num, storedMem, avail]

theorem storePacket_ok (returned : (storePacket index aIdx packet).run server = .ok () after) :
    ∃ written, Stores server (server.vring index) aIdx packet written ∧
      after = { server with
        mem := storedMem server.mem (server.vring index) aIdx packet written } := by
  cases bytes : server.mem.writeBytes (packetPointer server (server.vring index) aIdx)
      (framed packet) with
  | none =>
    unfold packetPointer at bytes
    simp [storePacket, bytes] at returned
  | some written =>
    have mapped := (writeBytes_keeps bytes).2.2.2
    have avail : server.mem.mapped (server.vring index).avail = true := by
      by_contra unmapped
      unfold packetPointer at bytes
      simp [storePacket, bytes, deref, mapped, unmapped] at returned
    have num : (server.vring index).num ≠ 0 := by
      intro zero
      unfold packetPointer at bytes
      simp [storePacket, bytes, deref, mapped, avail, zero] at returned
    have stores : Stores server (server.vring index) aIdx packet written := ⟨bytes, avail, num⟩
    rw [storePacket_run stores] at returned
    cases returned
    exact ⟨written, stores, rfl⟩

/-! ### Both functions -/

def VHostUser.positionDesc (server : VHostUser) (index : Fin 2) : VringDesc :=
  server.mem.desc (server.vring index).desc (server.vring index).lastAvailIdx.toNat

def enterPut (server : VHostUser) (function : RingFunction) (index : Fin 2) : VHostUser :=
  server.observe (.entered function index (server.vring index) server.memory)

def movedPut (server : VHostUser) (function : RingFunction) (index : Fin 2) (moved : Vring) :
    VHostUser :=
  (enterPut server function index).setRing index moved

def storedPut (server : VHostUser) (function : RingFunction) (index : Fin 2) (moved : Vring)
    (packet : List UInt8) (written : GuestMem) : VHostUser :=
  { movedPut server function index moved with
    mem := storedMem server.mem moved (server.vring index).lastAvailIdx packet written }

def putVringRing (server : VHostUser) (index : Fin 2) : Vring :=
  { server.vring index with lastAvailIdx := (server.positionDesc index).next }

def putRxVringRing (server : VHostUser) (index : Fin 2) : Vring :=
  { server.vring index with
    lastAvailIdx := (server.positionDesc index).next
    lastUsedIdx := (server.mem.desc (server.vring index).desc
      (server.vring index).lastUsedIdx.toNat).next }

section Moved

variable {function : RingFunction} {moved : Vring} {written : GuestMem}

theorem moved_stores (desc : moved.desc = (server.vring index).desc)
    (avail : moved.avail = (server.vring index).avail) (num : moved.num = (server.vring index).num)
    {aIdx : UInt16} (stores : Stores server (server.vring index) aIdx packet written) :
    Stores (movedPut server function index moved)
      ((movedPut server function index moved).vring index) aIdx packet written := by
  have pointer : packetPointer (movedPut server function index moved) moved aIdx =
      packetPointer server (server.vring index) aIdx := by
    unfold packetPointer
    rw [desc]
    rfl
  unfold movedPut at pointer ⊢
  rw [VHostUser.setRing_same]
  exact ⟨pointer ▸ stores.bytes, avail ▸ stores.avail, num ▸ stores.num⟩

theorem storePacket_moved
    (stores : Stores (movedPut server function index moved)
      ((movedPut server function index moved).vring index) (server.vring index).lastAvailIdx
      packet written) :
    (storePacket index (server.vring index).lastAvailIdx packet).run
        (movedPut server function index moved) =
      .ok () (storedPut server function index moved packet written) := by
  rw [storePacket_run stores]
  simp [storedPut, movedPut, enterPut, VHostUser.observe]

end Moved

/-- A put from its entry on: it can read the ring if `reads` holds, and `finish` follows once the
packet is stored. -/
def putFrom (server : VHostUser) (function : RingFunction) (index : Fin 2) (packet : List UInt8)
    (reads : Bool) (moved : Vring) (finish : VHostUser → VHostUser) :
    EStateM.Result Fault VHostUser Int :=
  if reads then
    if (server.positionDesc index).len.toNat < packet.length then
      .ok (-1) (enterPut server function index)
    else
      (do
        storePacket index (server.vring index).lastAvailIdx packet
        modify finish
        return (0 : Int) : ServerM Int).run (movedPut server function index moved)
  else .error .badAddress (enterPut server function index)

section From

variable {function : RingFunction} {reads : Bool} {moved : Vring} {finish : VHostUser → VHostUser}

theorem putFrom_refuses (readable : reads = true)
    (large : (server.positionDesc index).len.toNat < packet.length) :
    putFrom server function index packet reads moved finish =
      .ok (-1) (enterPut server function index) := by
  rw [putFrom, if_pos readable, if_pos large]

theorem putFrom_accepts (readable : reads = true)
    (fits : packet.length ≤ (server.positionDesc index).len.toNat)
    (stores : Stores (movedPut server function index moved)
      ((movedPut server function index moved).vring index) (server.vring index).lastAvailIdx
      packet written) :
    putFrom server function index packet reads moved finish =
      .ok 0 (finish (storedPut server function index moved packet written)) := by
  rw [putFrom, if_pos readable, if_neg (Nat.not_lt.mpr fits),
    run_bind_ok (storePacket_moved stores)]
  rfl

theorem putFrom_ok
    (returned : putFrom server function index packet reads moved finish = .ok code after) :
    ((server.positionDesc index).len.toNat < packet.length ∧ code = -1 ∧
        after = enterPut server function index) ∨
      (code = 0 ∧ ∃ written, after = finish (storedPut server function index moved packet
        written)) := by
  have ran := returned
  unfold putFrom at ran
  split at ran
  next readable =>
    split at ran
    next large =>
      cases ran
      exact .inl ⟨large, rfl, rfl⟩
    next fits =>
      obtain ⟨_, middle, stored, -⟩ := bind_ok ran
      obtain ⟨written, stores, -⟩ := storePacket_ok stored
      rw [putFrom_accepts readable (Nat.le_of_not_lt fits) stores] at returned
      cases returned
      exact .inr ⟨rfl, written, rfl⟩
  next => cases ran

end From

/-! ### `put_vring` -/

def putVringDone (server : VHostUser) (index : Fin 2) (packet : List UInt8)
    (written : GuestMem) : VHostUser :=
  (storedPut server .putVring index (putVringRing server index) packet written).observe
    (.placed index packet)

theorem putVring_eq (index : Fin 2) (packet : List UInt8) (server : VHostUser) :
    (putVring index packet).run server =
      putFrom server .putVring index packet (server.mem.mapped (server.vring index).desc)
        (putVringRing server index) fun server => server.observe (.placed index packet) := by
  change (deref (server.vring index).desc >>= _).run (enterPut server .putVring index) = _
  rw [run_deref_bind]
  refine if_ctx_congr Iff.rfl (fun _ => ?_) fun _ => rfl
  exact apply_ite (EStateM.run · (enterPut server .putVring index)) _ _ _

theorem putVring_refuses (mapped : server.mem.mapped (server.vring index).desc = true)
    (large : (server.positionDesc index).len.toNat < packet.length) :
    (putVring index packet).run server = .ok (-1) (enterPut server .putVring index) := by
  rw [putVring_eq, putFrom_refuses mapped large]

theorem putVring_accepts (mapped : server.mem.mapped (server.vring index).desc = true)
    (fits : packet.length ≤ (server.positionDesc index).len.toNat)
    (stores : Stores server (server.vring index) (server.vring index).lastAvailIdx packet written) :
    (putVring index packet).run server = .ok 0 (putVringDone server index packet written) := by
  rw [putVring_eq]
  exact putFrom_accepts mapped fits (moved_stores (by rfl) (by rfl) (by rfl) stores)

/-! ### `put_rx_vring` -/

def putRxVringElem (server : VHostUser) (index : Fin 2) (packet : List UInt8) : VringUsedElem :=
  ⟨(server.vring index).lastUsedIdx.toUInt32, .ofNat (netHdrSize + packet.length)⟩

structure PartsMapped (mem : GuestMem) (ring : Vring) : Prop where
  desc : mem.mapped ring.desc = true
  avail : mem.mapped ring.avail = true
  used : mem.mapped ring.used = true

theorem putRxVring_eq (index : Fin 2) (packet : List UInt8) (server : VHostUser) :
    (putRxVring index packet).run server =
      putFrom server .putRxVring index packet
        (server.mem.mapped (server.vring index).desc &&
          (server.mem.mapped (server.vring index).avail &&
            server.mem.mapped (server.vring index).used))
        (putRxVringRing server index) fun stored =>
          (stored.setUsed (server.vring index).used
            (appendUsed (stored.mem.used (server.vring index).used) (server.vring index).num
              (putRxVringElem server index packet))).observe (.placed index packet) := by
  change (deref (server.vring index).desc >>= _).run (enterPut server .putRxVring index) = _
  simp only [run_deref_bind, putFrom, Bool.and_eq_true, ite_and]
  refine if_ctx_congr Iff.rfl (fun _ => ?_) fun _ => rfl
  refine if_ctx_congr Iff.rfl (fun _ => ?_) fun _ => rfl
  refine if_ctx_congr Iff.rfl (fun _ => ?_) fun _ => rfl
  exact apply_ite (EStateM.run · (enterPut server .putRxVring index)) _ _ _

end Store

end VhostUser.Server
