import VhostUser.Lib.StreamSocket
import VhostUser.Wire

/-!
Contract: how QEMU builds vhost-user messages (`vhost_user_call` and
`vhost_user_echo` in `vhost-backend.c`).

A request is the `ioctl` number together with the argument `vhost_user_call`
reads through its pointer. The message buffer is an uninitialised local
variable: only the written fields are determined, and `vhost_user_send_fds`
sends the header and the `size` bytes that follow it.

Owns:
- the frame a request is sent as, and when none is sent;
- reading a field back from a frame on the other side.
-/

namespace VhostUser.Qemu

open VhostUser.Lib VhostUser.Wire
open VhostUser.Lib.ByteImage (ByteField assemble slice overlay)

/-- The fields of `RAMBlock` that the backend uses. -/
structure RAMBlock where
  host : UInt64
  offset : UInt64
  length : UInt64
  fd : Int
deriving DecidableEq, Repr

structure VhostVringState where
  index : UInt32
  num : UInt32
deriving DecidableEq, Repr

structure VhostVringAddr where
  index : UInt32
  flags : UInt32
  descUserAddr : UInt64
  usedUserAddr : UInt64
  availUserAddr : UInt64
  logGuestAddr : UInt64
deriving DecidableEq, Repr

structure VhostVringFile where
  index : UInt32
  fd : Int
deriving DecidableEq, Repr

/-- The `request` and `arg` parameters of `vhost_user_call`. -/
inductive VhostCall where
  | getFeatures
  | getVringBase (state : VhostVringState)
  | setFeatures (features : UInt64)
  | setLogBase (base : UInt64)
  | setOwner
  | resetOwner
  | setMemTable
  | setLogFd (fd : Int)
  | setVringNum (state : VhostVringState)
  | setVringBase (state : VhostVringState)
  | setVringAddr (addr : VhostVringAddr)
  | setVringKick (file : VhostVringFile)
  | setVringCall (file : VhostVringFile)
  | setVringErr (file : VhostVringFile)
  | netSetBackend (file : VhostVringFile)
deriving DecidableEq, Repr

def vhostUserRequestTranslate : VhostCall → Request
  | .getFeatures => .getFeatures
  | .getVringBase _ => .getVringBase
  | .setFeatures _ => .setFeatures
  | .setLogBase _ => .setLogBase
  | .setOwner => .setOwner
  | .resetOwner => .resetOwner
  | .setMemTable => .setMemTable
  | .setLogFd _ => .setLogFd
  | .setVringNum _ => .setVringNum
  | .setVringBase _ => .setVringBase
  | .setVringAddr _ => .setVringAddr
  | .setVringKick _ => .setVringKick
  | .setVringCall _ => .setVringCall
  | .setVringErr _ => .setVringErr
  | .netSetBackend _ => .netSetBackend

/-- One `sendmsg`: its bytes and its `SCM_RIGHTS` descriptors. -/
abbrev Frame := Transfer UInt8 Int

inductive CallResult where
  | sent (frame : Frame)
  /-- The call returns -1 without sending. -/
  | refused
  /-- More file-backed blocks than `regions` and `fds` have entries. -/
  | overrun
deriving DecidableEq, Repr

def vhostMemoryMaxNregions : Nat := 8

def intBits (value : Int) : Nat :=
  (value % 2 ^ 32).toNat

/-- The payload of a message: field writes, `msg.size` and descriptors. -/
structure Payload where
  writes : List (ByteField × Nat)
  size : Nat
  fds : List Int

def statePayload (state : VhostVringState) : Payload where
  writes := [(stateIndex, state.index.toNat), (stateNum, state.num.toNat)]
  size := 8
  fds := []

def addrPayload (addr : VhostVringAddr) : Payload where
  writes := [(addrIndex, addr.index.toNat), (addrFlags, addr.flags.toNat),
    (addrDescUserAddr, addr.descUserAddr.toNat), (addrUsedUserAddr, addr.usedUserAddr.toNat),
    (addrAvailUserAddr, addr.availUserAddr.toNat), (addrLogGuestAddr, addr.logGuestAddr.toNat)]
  size := 40
  fds := []

def filePayload (file : VhostVringFile) : Payload where
  writes := [(fileIndex, file.index.toNat), (fileFd, intBits file.fd)]
  size := 8
  fds := if 0 < file.fd then [file.fd] else []

/-- The blocks that `VHOST_SET_MEM_TABLE` announces. -/
def fileBacked (blocks : List RAMBlock) : List RAMBlock :=
  blocks.filter fun block => 0 < block.fd

def regionWrites (block : RAMBlock) (idx : Nat) : List (ByteField × Nat) :=
  [(regionUserspaceAddr idx, block.host.toNat), (regionMemorySize idx, block.length.toNat),
    (regionGuestPhysAddr idx, block.offset.toNat)]

def memPayload (backed : List RAMBlock) : Payload where
  writes := (memoryNregions, backed.length) ::
    backed.zipIdx.flatMap fun (block, idx) => regionWrites block idx
  size := 8 + 24 * backed.length
  fds := backed.map RAMBlock.fd

/-- The frame of a message, in a buffer with the given stale bytes. `VHOST_USER_VERSION` is 1. -/
def frameOf (request : Request) (payload : Payload) (stale : ByteImage) : Frame where
  data := slice (assemble ([(Wire.request, request.code), (flags, 1), (size, payload.size)] ++
    payload.writes) stale) 0 (hdrSize + payload.size)
  rights := payload.fds

/-- `vhost_user_call` on a connection whose `sendmsg` succeeds. -/
def vhostUserCall (control : Int) (blocks : List RAMBlock) (stale : ByteImage)
    (call : VhostCall) : CallResult :=
  let send := fun payload =>
    CallResult.sent (frameOf (vhostUserRequestTranslate call) payload stale)
  if control < 0 then .refused
  else match call with
    | .getFeatures | .getVringBase _ | .setOwner | .resetOwner => send ⟨[], 0, []⟩
    | .setFeatures value | .setLogBase value => send ⟨[(u64, value.toNat)], 8, []⟩
    | .setMemTable =>
      let backed := fileBacked blocks
      if vhostMemoryMaxNregions < backed.length then .overrun
      else if backed.length = 0 then .refused
      else send (memPayload backed)
    | .setLogFd value => send ⟨[(fd, intBits value)], 4, []⟩
    | .setVringNum state | .setVringBase state => send (statePayload state)
    | .setVringAddr addr => send (addrPayload addr)
    | .setVringKick file | .setVringCall file | .setVringErr file | .netSetBackend file =>
      send (filePayload file)

def vhostUserEcho (control : Int) (stale : ByteImage) : CallResult :=
  if control < 0 then .refused else .sent (frameOf .echo ⟨[], 0, []⟩ stale)

/-! ### Reading a frame -/

variable {field : ByteField}

section Frames

variable {request : Request} {payload : Payload} {stale buffer : ByteImage}

@[simp] theorem frameOf_length :
    (frameOf request payload stale).data.length = hdrSize + payload.size := by
  simp [frameOf]

def headerFields : List ByteField := [Wire.request, flags, size]

section

variable (apart : (headerFields ++ payload.writes.map Prod.fst).Pairwise ByteField.Apart)
include apart

theorem frameOf_get {value : Nat} (member : (field, value) ∈ payload.writes)
    (fits : value < 256 ^ field.width)
    (covered : field.offset + field.width ≤ hdrSize + payload.size) :
    field.get (overlay (frameOf request payload stale).data buffer) = value := by
  unfold frameOf
  rw [ByteField.get_received _ _ _ covered]
  refine ByteImage.get_assemble_mem _ ?_ (List.mem_append_right _ member) fits
  rw [List.map_append]
  exact apart

theorem frameOf_header {value : Nat}
    (member : (field, value) ∈ [(Wire.request, request.code), (flags, 1), (size, payload.size)])
    (fits : value < 256 ^ field.width) (covered : field.offset + field.width ≤ hdrSize) :
    field.get (overlay (frameOf request payload stale).data buffer) = value := by
  unfold frameOf
  rw [ByteField.get_received _ _ _ (covered.trans (Nat.le_add_right _ _))]
  refine ByteImage.get_assemble_mem _ ?_ (List.mem_append_left _ member) fits
  rw [List.map_append]
  exact apart

theorem frameOf_request :
    Wire.request.get (overlay (frameOf request payload stale).data buffer) = request.code :=
  frameOf_header apart (by simp) (lt_trans request.code_lt (by decide)) (by decide)

end

end Frames

/-! ### The memory table -/

def regionFields (idx : Nat) : List ByteField :=
  [regionUserspaceAddr idx, regionMemorySize idx, regionGuestPhysAddr idx]

theorem memPayload_fields (backed : List RAMBlock) :
    (memPayload backed).writes.map Prod.fst =
      memoryNregions :: (List.range backed.length).flatMap regionFields := by
  have byPosition : (backed.zipIdx.flatMap fun entry => regionFields entry.2) =
      (backed.zipIdx.map Prod.snd).flatMap regionFields := (List.flatMap_map ..).symm
  rw [List.zipIdx_map_snd, ← List.range_eq_range'] at byPosition
  rw [← byPosition]
  simp [memPayload, List.map_flatMap, regionWrites, regionFields]

theorem memFields_apart : ∀ count < vhostMemoryMaxNregions + 1,
    (headerFields ++ memoryNregions :: (List.range count).flatMap regionFields).Pairwise
      ByteField.Apart := by
  decide +kernel

section MemTable

variable {backed : List RAMBlock} {stale buffer : ByteImage}

section

variable (small : backed.length ≤ vhostMemoryMaxNregions)
include small

theorem memPayload_apart :
    (headerFields ++ (memPayload backed).writes.map Prod.fst).Pairwise ByteField.Apart := by
  rw [memPayload_fields]
  exact memFields_apart _ (Nat.lt_succ_of_le small)

theorem memTable_nregions :
    memoryNregions.get (overlay (frameOf .setMemTable (memPayload backed) stale).data buffer) =
      backed.length := by
  apply frameOf_get (memPayload_apart small) (List.mem_cons_self ..)
  · unfold vhostMemoryMaxNregions at small
    simp only [memoryNregions]
    omega
  · simp only [memoryNregions, hdrSize, memPayload]
    omega

theorem memTable_region {idx : Nat} {block : RAMBlock} {value : UInt64}
    (placed : backed[idx]? = some block) (member : (field, value.toNat) ∈ regionWrites block idx) :
    field.get (overlay (frameOf .setMemTable (memPayload backed) stale).data buffer) =
      value.toNat := by
  have below : idx < backed.length := (List.getElem?_eq_some_iff.mp placed).1
  have shape : field.width = 8 ∧ field.offset ≤ 36 + 24 * idx := by
    simp only [regionWrites, List.mem_cons, Prod.mk.injEq, List.not_mem_nil, or_false] at member
    rcases member with ⟨rfl, -⟩ | ⟨rfl, -⟩ | ⟨rfl, -⟩ <;>
      simp [regionUserspaceAddr, regionMemorySize, regionGuestPhysAddr]
  refine frameOf_get (memPayload_apart small) ?_ ?_ ?_
  · refine List.mem_cons_of_mem _ (List.mem_flatMap.mpr ⟨(block, idx), ?_, member⟩)
    exact List.mk_mem_zipIdx_iff_getElem?.mpr placed
  · rw [shape.1]
    exact UInt64.toNat_lt value
  · simp only [hdrSize, memPayload]
    omega

end

end MemTable

/-! ### Every request -/

/-- Separate fields, a payload that fits the union, and no more descriptors than a table has
regions. -/
structure Payload.WellFormed (payload : Payload) : Prop where
  apart : (headerFields ++ payload.writes.map Prod.fst).Pairwise ByteField.Apart
  size_le : payload.size ≤ 200
  fds_le : payload.fds.length ≤ 8

theorem empty_wellFormed : Payload.WellFormed ⟨[], 0, []⟩ := by
  constructor <;> decide

theorem statePayload_wellFormed (state : VhostVringState) : (statePayload state).WellFormed where
  apart := by
    change (headerFields ++ [stateIndex, stateNum]).Pairwise _
    decide
  size_le := by simp [statePayload]
  fds_le := by simp [statePayload]

theorem addrPayload_wellFormed (addr : VhostVringAddr) : (addrPayload addr).WellFormed where
  apart := by
    change (headerFields ++ [addrIndex, addrFlags, addrDescUserAddr, addrUsedUserAddr,
      addrAvailUserAddr, addrLogGuestAddr]).Pairwise _
    decide
  size_le := by simp [addrPayload]
  fds_le := by simp [addrPayload]

theorem filePayload_wellFormed (file : VhostVringFile) : (filePayload file).WellFormed where
  apart := by
    change (headerFields ++ [fileIndex, fileFd]).Pairwise _
    decide
  size_le := by simp [filePayload]
  fds_le := by
    unfold filePayload
    split <;> simp

theorem memPayload_wellFormed {backed : List RAMBlock}
    (small : backed.length ≤ vhostMemoryMaxNregions) : (memPayload backed).WellFormed where
  apart := memPayload_apart small
  size_le := by
    unfold vhostMemoryMaxNregions at small
    simp only [memPayload]
    omega
  fds_le := by
    simp only [memPayload, List.length_map]
    exact small

theorem scalar_wellFormed (value : Nat) {width : Nat}
    (apart : (headerFields ++ [field]).Pairwise ByteField.Apart) (small : width ≤ 200) :
    Payload.WellFormed ⟨[(field, value)], width, []⟩ :=
  ⟨apart, small, by simp⟩

theorem vhostUserCall_sent {control : Int} {blocks : List RAMBlock} {stale : ByteImage}
    {call : VhostCall} {frame : Frame}
    (sent : vhostUserCall control blocks stale call = .sent frame) :
    ∃ payload, payload.WellFormed ∧
      frame = frameOf (vhostUserRequestTranslate call) payload stale := by
  unfold vhostUserCall at sent
  split at sent
  · simp at sent
  split at sent
  case h_1 | h_2 | h_3 | h_4 =>
    cases sent
    exact ⟨_, empty_wellFormed, rfl⟩
  case h_5 | h_6 =>
    cases sent
    exact ⟨_, scalar_wellFormed _ (by decide) (by decide), rfl⟩
  case h_7 =>
    dsimp only at sent
    split at sent
    · simp at sent
    split at sent
    · simp at sent
    · rename_i notLarge _
      cases sent
      exact ⟨_, memPayload_wellFormed (Nat.le_of_not_lt notLarge), rfl⟩
  case h_8 =>
    cases sent
    exact ⟨_, scalar_wellFormed _ (by decide) (by decide), rfl⟩
  case h_9 | h_10 =>
    cases sent
    exact ⟨_, statePayload_wellFormed _, rfl⟩
  case h_11 =>
    cases sent
    exact ⟨_, addrPayload_wellFormed _, rfl⟩
  case h_12 | h_13 | h_14 | h_15 =>
    cases sent
    exact ⟨_, filePayload_wellFormed _, rfl⟩

end VhostUser.Qemu
