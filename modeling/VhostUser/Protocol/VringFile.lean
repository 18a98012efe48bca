import VhostUser.Qemu.Backend
import VhostUser.Server.Handlers

/-!
Contract: the descriptor messages `VHOST_SET_VRING_KICK` and
`VHOST_SET_VRING_CALL` from QEMU's encoder to the server's decoder.

QEMU writes `struct vhost_vring_file` and passes the descriptor when it is
positive. The server reads the same bytes as one 64-bit value: the ring in its
low byte and, in bit 8, whether there is no descriptor. QEMU never sets that
bit.
-/

namespace VhostUser.Protocol

open VhostUser.Lib VhostUser.Wire VhostUser.Qemu VhostUser.Server

/-- The two messages that hand a descriptor to a ring. -/
inductive FileRequest where
  | kick
  | call
deriving DecidableEq, Repr

namespace FileRequest

def vhostCall (request : FileRequest) (file : VhostVringFile) : VhostCall :=
  match request with
  | .kick => .setVringKick file
  | .call => .setVringCall file

def ringFd (request : FileRequest) (ring : Vring) : Int :=
  match request with
  | .kick => ring.kickfd
  | .call => ring.callfd

end FileRequest

/-- What the message is meant to do: the ring gets the descriptor, or without one keeps its old
one and, after a kick message, is polled. No other ring changes. -/
def FileHandled (request : FileRequest) (idx : Fin 2) (fd : Int) (before after : VHostUser) :
    Prop :=
  (∀ other ≠ idx, after.vring other = before.vring other) ∧
    if 0 < fd then
      request.ringFd (after.vring idx) = fd ∧ (request = .kick → after.isPolling = false)
    else
      request.ringFd (after.vring idx) = request.ringFd (before.vring idx) ∧
        (request = .kick → after.isPolling = true)

/-- The server undoes QEMU's encoding of `index` and `fd`, whatever the message buffers held. -/
def FileDecodes (request : FileRequest) (index : UInt32) (fd : Int) : Prop :=
  ∀ (blocks : List RAMBlock) (sendBuffer : ByteImage) (recvBuffer : VHostUserLocalMsg)
    (mmap : Mmap) (server : VHostUser),
    ∃ (frame : Frame) (below : index.toNat < 2) (result : Int × VHostUserLocalMsg)
      (after : VHostUser),
      vhostUserCall 0 blocks sendBuffer (request.vhostCall ⟨index, fd⟩) = .sent frame ∧
      (inMsgServer (vhostUserReceive (.data frame.data frame.rights) recvBuffer) mmap).run server =
        .ok result after ∧
      FileHandled request ⟨index.toNat, below⟩ fd server after

/-! ### The message on the server's side -/

section Decode

variable {request : FileRequest} {index : UInt32} {fd : Int} {sendBuffer : ByteImage}
  {recvBuffer : VHostUserLocalMsg}

def fileMsg (request : FileRequest) (file : VhostVringFile) (sendBuffer : ByteImage)
    (recvBuffer : VHostUserLocalMsg) : VHostUserLocalMsg :=
  let frame := frameOf (vhostUserRequestTranslate (request.vhostCall file)) (filePayload file)
    sendBuffer
  vhostUserReceive (.data frame.data frame.rights) recvBuffer

theorem fileMsg_sent (blocks : List RAMBlock) (file : VhostVringFile) :
    vhostUserCall 0 blocks sendBuffer (request.vhostCall file) =
      .sent (frameOf (vhostUserRequestTranslate (request.vhostCall file)) (filePayload file)
        sendBuffer) := by
  cases request <;> rfl

theorem fileMsg_u64 (file : VhostVringFile) :
    u64.get (fileMsg request file sendBuffer recvBuffer).request =
      file.index.toNat + 2 ^ 32 * intBits file.fd := by
  have wellFormed := filePayload_wellFormed file
  have index : fileIndex.get (fileMsg request file sendBuffer recvBuffer).request =
      file.index.toNat :=
    frameOf_get wellFormed.apart (by simp [filePayload]) (UInt32.toNat_lt file.index)
      (by simp [fileIndex, hdrSize, filePayload])
  have bits : fileFd.get (fileMsg request file sendBuffer recvBuffer).request =
      intBits file.fd := by
    refine frameOf_get wellFormed.apart (by simp [filePayload]) ?_
      (by simp [fileFd, hdrSize, filePayload])
    simp only [intBits, fileFd]
    omega
  rw [u64_eq_file, index, bits]

theorem fileMsg_vringIdx (file : VhostVringFile) (small : file.index.toNat < 256) :
    vringIdx (u64.get (fileMsg request file sendBuffer recvBuffer).request) = file.index.toNat := by
  rw [fileMsg_u64, vringIdx]
  omega

theorem fileMsg_vringNoFd (file : VhostVringFile) (small : file.index.toNat < 256) :
    vringNoFd (u64.get (fileMsg request file sendBuffer recvBuffer).request) = false := by
  rw [fileMsg_u64, vringNoFd, Nat.testBit_eq_decide_div_mod_eq, decide_eq_false_iff_not]
  omega

theorem fileMsg_marks (below : index.toNat < 2) :
    vringIdx (u64.get (fileMsg request ⟨index, fd⟩ sendBuffer recvBuffer).request) =
        (⟨index.toNat, below⟩ : Fin 2).val ∧
      vringNoFd (u64.get (fileMsg request ⟨index, fd⟩ sendBuffer recvBuffer).request) = false := by
  have small : index.toNat < 256 := by omega
  exact ⟨fileMsg_vringIdx ⟨index, fd⟩ small, fileMsg_vringNoFd ⟨index, fd⟩ small⟩

theorem fileMsg_fds (fds : 0 < fd) :
    (fileMsg request ⟨index, fd⟩ sendBuffer recvBuffer).fdNum = 1 ∧
      (fileMsg request ⟨index, fd⟩ sendBuffer recvBuffer).fds 0 = fd := by
  simp [fileMsg, vhostUserReceive, frameOf, filePayload, fds]

theorem fileMsg_noFds (absent : ¬ 0 < fd) :
    (fileMsg request ⟨index, fd⟩ sendBuffer recvBuffer).fdNum = 0 ∧
      (fileMsg request ⟨index, fd⟩ sendBuffer recvBuffer).fds 0 = recvBuffer.fds 0 := by
  simp [fileMsg, vhostUserReceive, frameOf, filePayload, absent]

theorem fileMsg_handlers (file : VhostVringFile) (mmap : Mmap) :
    let msg := fileMsg request file sendBuffer recvBuffer
    inMsgServer msg mmap = do
      let code ← match request with
        | .kick => setVringKick msg
        | .call => setVringCall msg
      return (code, msg) := by
  intro msg
  have code : Wire.request.get msg.request =
      (vhostUserRequestTranslate (request.vhostCall file)).code :=
    frameOf_request (filePayload_wellFormed file).apart
  rw [inMsgServer_eq mmap code]
  cases request <;> rfl

theorem fileHandled_of_positive (below : index.toNat < 2) (fds : 0 < fd) (mmap : Mmap)
    (server : VHostUser) :
    ∃ result after, (inMsgServer (fileMsg request ⟨index, fd⟩ sendBuffer recvBuffer) mmap).run
        server = .ok result after ∧
      FileHandled request ⟨index.toNat, below⟩ fd server after := by
  obtain ⟨named, valid⟩ := @fileMsg_marks request index fd sendBuffer recvBuffer below
  obtain ⟨one, passed⟩ := @fileMsg_fds request index fd sendBuffer recvBuffer fds
  rw [fileMsg_handlers]
  cases request with
  | kick =>
    obtain ⟨fdList, ran⟩ := @setVringKick_run server _ _ named valid one
    refine ⟨_, _, run_bind_ok ran, ?_, ?_⟩
    · intro other different
      exact VHostUser.setRing_other _ _ different
    · rw [if_pos fds]
      simp [FileRequest.ringFd, passed]
  | call =>
    refine ⟨_, _, run_bind_ok (setVringCall_run named valid), ?_, ?_⟩
    · intro other different
      exact VHostUser.setRing_other _ _ different
    · rw [if_pos fds]
      simp [FileRequest.ringFd, passed]

/-- Without a descriptor a kick message stops the server and a call message takes it from the stale
buffer. -/
theorem not_fileHandled_of_missing (below : index.toNat < 2) (absent : ¬ 0 < fd)
    (server : VHostUser) (mmap : Mmap)
    (stale : recvBuffer.fds 0 ≠ (server.vring ⟨index.toNat, below⟩).callfd) :
    ¬ ∃ result after, (inMsgServer (fileMsg request ⟨index, fd⟩ sendBuffer recvBuffer) mmap).run
        server = .ok result after ∧
      FileHandled request ⟨index.toNat, below⟩ fd server after := by
  obtain ⟨named, valid⟩ := @fileMsg_marks request index fd sendBuffer recvBuffer below
  obtain ⟨zero, left⟩ := @fileMsg_noFds request index fd sendBuffer recvBuffer absent
  rw [fileMsg_handlers]
  rintro ⟨result, after, ran, handled⟩
  cases request with
  | kick =>
    simp only [EStateM.run_bind,
      setVringKick_unmarked named valid (by rw [zero]; exact zero_ne_one)] at ran
    simp at ran
  | call =>
    simp only [EStateM.run_bind, setVringCall_run named valid, EStateM.run_pure] at ran
    cases ran
    have kept := handled.2
    rw [if_neg absent] at kept
    simp only [FileRequest.ringFd, VHostUser.setRing_same, left] at kept
    exact stale kept.1

theorem not_fileDecodes_of_missing (below : index.toNat < 2) (absent : ¬ 0 < fd) :
    ¬ FileDecodes request index fd := by
  intro decodes
  obtain ⟨frame, _, result, after, sent, ran, handled⟩ :=
    decodes [] (fun _ => 0) .zero (fun _ => none) (.fresh .unmapped)
  rw [fileMsg_sent, CallResult.sent.injEq] at sent
  subst sent
  have stale : VHostUserLocalMsg.zero.fds 0 ≠
      ((VHostUser.fresh .unmapped).vring ⟨index.toNat, below⟩).callfd :=
    show (0 : Int) ≠ -1 by decide
  exact not_fileHandled_of_missing below absent _ _ stale ⟨result, after, ran, handled⟩

end Decode

/-- The decoding undoes the encoding exactly for the two rings and a descriptor that is passed. -/
theorem fileDecodes_iff (request : FileRequest) (index : UInt32) (fd : Int) :
    FileDecodes request index fd ↔ index.toNat < 2 ∧ 0 < fd := by
  constructor
  · intro decodes
    obtain ⟨-, below, -⟩ := decodes [] (fun _ => 0) .zero (fun _ => none) (.fresh .unmapped)
    refine ⟨below, ?_⟩
    by_contra absent
    exact not_fileDecodes_of_missing below absent decodes
  · rintro ⟨below, fds⟩ blocks sendBuffer recvBuffer mmap server
    obtain ⟨result, after, ran, handled⟩ := @fileHandled_of_positive request index fd sendBuffer
      recvBuffer below fds mmap server
    exact ⟨_, below, result, after, fileMsg_sent _ _, ran, handled⟩

/-- Unbinding a ring with descriptor -1 is not understood. -/
theorem fileDecodes_fails_on_unbind : ¬ FileDecodes .kick 0 (-1) ∧ ¬ FileDecodes .call 0 (-1) :=
  ⟨not_fileDecodes_of_missing (by decide) (by decide),
    not_fileDecodes_of_missing (by decide) (by decide)⟩

end VhostUser.Protocol
