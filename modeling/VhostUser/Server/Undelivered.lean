import VhostUser.Server.Readiness

/-!
Contract: what `receive_sock_server` does when `recvmsg` delivers no complete message.

The function looks at the result of `vhost_user_receive` only to close the connection. It then hands
the buffer to `in_msg_server`, with whatever the stack held there before and as many bytes of a new
message as arrived.

Owns: for which buffers such an outcome has no effect.
-/

namespace VhostUser.Server

open VhostUser.Lib VhostUser.Wire
open VhostUser.Lib.ByteImage (overlay)

/-- An outcome of `recvmsg` that delivers no complete message into the buffer. -/
inductive Undelivered (stale : VHostUserLocalMsg) where
  | error
  /-- `MSG_TRUNC` or `MSG_CTRUNC`: the bytes are in the buffer, the descriptors are not copied. -/
  | truncated (bytes : List UInt8)
  | endOfFile
  /-- Fewer bytes than the header and the payload it announces. -/
  | short (bytes : List UInt8) (fds : List Int) (arrived : bytes ≠ [])
      (cut : bytes.length < hdrSize + Wire.size.get (overlay bytes stale.request))

namespace Undelivered

variable {stale : VHostUserLocalMsg}

def result : Undelivered stale → RecvResult
  | .error | .truncated _ => .failed
  | .endOfFile => .closed
  | .short bytes fds _ _ => .data bytes fds

/-- The buffer when `recvmsg` returns an error or end of file. -/
def buffer : Undelivered stale → VHostUserLocalMsg
  | .truncated bytes => { stale with request := overlay bytes stale.request }
  | _ => stale

def dispatched (outcome : Undelivered stale) : VHostUserLocalMsg :=
  vhostUserReceive outcome.result outcome.buffer

def receive (outcome : Undelivered stale) (sock : Int) (mmap : Mmap) : ServerM Unit :=
  receiveSockServer sock outcome.result outcome.buffer mmap

/-- The server without the connection if the peer has closed it. -/
def disconnect (outcome : Undelivered stale) (sock : Int) (server : VHostUser) : VHostUser :=
  if outcome.result = .closed then
    { server with fdList := delFdList server.fdList .fdRead sock }
  else server

end Undelivered

/-- The request whose function in `msg_handlers` is called. The slot of `VHOST_USER_ECHO` is
empty. -/
def calledHandler (msg : VHostUserLocalMsg) : Option Request :=
  (Request.ofCode? (Wire.request.get msg.request)).filter (· ≠ .echo)

/-- No handler runs, and at most the connection is removed. -/
def Undelivered.Ignored {stale : VHostUserLocalMsg} (outcome : Undelivered stale) (sock : Int)
    (mmap : Mmap) (server : VHostUser) : Prop :=
  calledHandler outcome.dispatched = none ∧
    finalState ((outcome.receive sock mmap).run server) = outcome.disconnect sock server

section Dispatch

variable {stale : VHostUserLocalMsg} {server : VHostUser} {mmap : Mmap} {sock : Int}

theorem calledHandler_eq_none_iff {msg : VHostUserLocalMsg} :
    calledHandler msg = none ↔
      Wire.request.get msg.request = 0 ∨ 16 ≤ Wire.request.get msg.request := by
  constructor
  · intro idle
    by_contra coded
    have small : Wire.request.get msg.request < 16 := by omega
    obtain ⟨request, named⟩ := Request.exists_code (lt_trans small (by decide)) fun zero =>
      coded (.inl zero)
    have echo : request = .echo := by
      by_contra other
      simp [calledHandler, named, other] at idle
    rw [named, echo] at small
    exact absurd small (by decide)
  · rintro (zero | large)
    · rw [calledHandler, zero]
      rfl
    rcases Nat.lt_or_eq_of_le large with beyond | echo
    · rw [calledHandler, Request.ofCode?_eq_none beyond]
      rfl
    · rw [calledHandler, ← echo]
      rfl

/-- Without a handler the assertion fails, or the message is `VHOST_USER_ECHO`. -/
theorem inMsgServer_idle {msg : VHostUserLocalMsg} (idle : calledHandler msg = none) :
    finalState ((inMsgServer msg mmap).run server) = server := by
  rcases inMsgServer_cases msg mmap server with ⟨request, named, handled⟩ | rejected
  · have echo : request = .echo := by
      by_contra other
      simp [calledHandler, named, other] at idle
    rw [handled, echo]
    rfl
  · rw [rejected]
    rfl

theorem receive_run (outcome : Undelivered stale) :
    (outcome.receive sock mmap).run server =
      ((inMsgServer outcome.dispatched mmap) >>= fun _ => pure ()).run
        (outcome.disconnect sock server) := by
  unfold Undelivered.receive receiveSockServer Undelivered.disconnect Undelivered.dispatched
  by_cases closed : outcome.result = .closed
  · rw [if_pos closed, if_pos closed]
    rfl
  · rw [if_neg closed, if_neg closed]

end Dispatch

theorem Undelivered.ignored_of_idle {stale : VHostUserLocalMsg} (outcome : Undelivered stale)
    (sock : Int) (mmap : Mmap) (server : VHostUser)
    (idle : calledHandler outcome.dispatched = none) : outcome.Ignored sock mmap server := by
  refine ⟨idle, ?_⟩
  have final := @inMsgServer_idle (outcome.disconnect sock server) mmap _ idle
  rw [receive_run, EStateM.run_bind]
  cases ran : (inMsgServer outcome.dispatched mmap).run (outcome.disconnect sock server) with
  | ok result after =>
    rw [ran] at final
    exact final
  | error fault after =>
    rw [ran] at final
    exact final

/-- An outcome without a complete message is ignored exactly when the buffer names no request with a
handler, and the server survives it exactly when the buffer happens to name `VHOST_USER_ECHO`. -/
theorem receiveSockServer_ignored_iff {stale : VHostUserLocalMsg} (outcome : Undelivered stale)
    (sock : Int) (mmap : Mmap) (server : VHostUser) :
    (outcome.Ignored sock mmap server ↔ Wire.request.get outcome.dispatched.request = 0 ∨
        16 ≤ Wire.request.get outcome.dispatched.request) ∧
      ((outcome.Ignored sock mmap server ∧
          ∃ after, (outcome.receive sock mmap).run server = .ok () after) ↔
        Wire.request.get outcome.dispatched.request = 16) := by
  have ignored : outcome.Ignored sock mmap server ↔
      Wire.request.get outcome.dispatched.request = 0 ∨
        16 ≤ Wire.request.get outcome.dispatched.request :=
    ⟨fun ignored => calledHandler_eq_none_iff.mp ignored.1, fun coded =>
      outcome.ignored_of_idle sock mmap server (calledHandler_eq_none_iff.mpr coded)⟩
  refine ⟨ignored, ?_⟩
  rw [ignored, receive_run]
  constructor
  · rintro ⟨coded, after, returned⟩
    obtain ⟨result, middle, handled, -⟩ := bind_ok returned
    obtain ⟨request, named, -⟩ := inMsgServer_effect handled
    have below := request.code_lt
    have positive : 0 < request.code := Nat.succ_pos _
    omega
  · intro echo
    have named : Wire.request.get outcome.dispatched.request = Request.echo.code := echo
    refine ⟨.inr (Nat.le_of_eq echo.symm), outcome.disconnect sock server, ?_⟩
    rw [inMsgServer_eq mmap named]
    rfl

def leftover : VHostUserLocalMsg := rawMsg .setVringNum [(stateIndex, 1), (stateNum, 7)] []

def numAfter (outcome : Undelivered leftover) : UInt32 :=
  ((finalState ((outcome.receive 4 fun _ => none).run (VHostUser.fresh idleMem))).vring txIdx).num

theorem leftover_cut : [8].length < hdrSize + Wire.size.get (overlay [8] leftover.request) := by
  decide +kernel

/-- The end of a connection, a failed `recvmsg`, and the first byte of a new message: each time
the message of before is handled again. -/
theorem receiveSockServer_leftover :
    (numAfter .endOfFile = 7 ∧
        ¬ Undelivered.Ignored (.endOfFile : Undelivered leftover) 4 (fun _ => none)
          (VHostUser.fresh idleMem)) ∧
      (numAfter .error = 7 ∧
        ¬ Undelivered.Ignored (.error : Undelivered leftover) 4 (fun _ => none)
          (VHostUser.fresh idleMem)) ∧
      numAfter (.short [8] [] (List.cons_ne_nil _ _) leftover_cut) = 7 ∧
        ¬ Undelivered.Ignored (.short [8] [] (List.cons_ne_nil _ _) leftover_cut) 4 (fun _ => none)
          (VHostUser.fresh idleMem) := by
  refine ⟨⟨by decide +kernel, fun ignored => ?_⟩, ⟨by decide +kernel, fun ignored => ?_⟩,
    by decide +kernel, fun ignored => ?_⟩
  · exact absurd ignored.1 (by decide +kernel)
  · exact absurd ignored.1 (by decide +kernel)
  · exact absurd ignored.1 (by decide +kernel)

end VhostUser.Server
