import VhostUser.Lib.StateFrame
import VhostUser.Server.Handlers

/-!
Contract: everything a vhost-user message can do to the server.

`MsgEffect` lists, per request, the states a handled message can lead to, and
`msgHandlers_effect` says that there are no others. Invariants over sequences of
messages are case analyses of it. A message that is not handled to its end
stops the server; it has made no observation either (`inMsgServer_keeps_trace`).
-/

namespace VhostUser.Server

open VhostUser.Lib VhostUser.Wire

/-- `after` is a possible outcome of handling `msg` as the given request. -/
inductive MsgEffect (msg : VHostUserLocalMsg) (server : VHostUser) :
    Request → VHostUser → Prop where
  | table (memory : VHostUserLocalMemory) :
      MsgEffect msg server .setMemTable { server with memory := memory }
  | num (idx : Fin 2) (named : stateIndex.get msg.request = idx) :
      MsgEffect msg server .setVringNum (server.setRing idx
        { server.vring idx with num := .ofNat (stateNum.get msg.request) })
  | addr (idx : Fin 2) (named : addrIndex.get msg.request = idx) :
      MsgEffect msg server .setVringAddr
        { server.setRing idx (addressed server idx msg) with gSendLock := true }
  | base (idx : Fin 2) (named : stateIndex.get msg.request = idx) :
      MsgEffect msg server .setVringBase (server.setRing idx
        { server.vring idx with lastAvailIdx := .ofNat (stateNum.get msg.request) })
  | kick (idx : Fin 2) (named : vringIdx (u64.get msg.request) = idx) (fdList : FdList) :
      MsgEffect msg server .setVringKick
        { server.setRing idx { server.vring idx with kickfd := msg.fds 0 } with
          fdList := fdList, isPolling := false }
  | polled : MsgEffect msg server .setVringKick { server with isPolling := true }
  | call (idx : Fin 2) (named : vringIdx (u64.get msg.request) = idx) :
      MsgEffect msg server .setVringCall
        (server.setRing idx { server.vring idx with callfd := msg.fds 0 })
  | unchanged (request : Request)
      (passive : request ∉ [.setMemTable, .setVringNum, .setVringAddr, .setVringBase]) :
      MsgEffect msg server request server

namespace MsgEffect

variable {msg : VHostUserLocalMsg} {server after : VHostUser} {request : Request}

section

variable (effect : MsgEffect msg server request after)
include effect

theorem trace : after.trace = server.trace := by
  cases effect <;> rfl

theorem buffer : after.buffer = server.buffer ∧ after.bufferSize = server.bufferSize := by
  cases effect <;> exact ⟨rfl, rfl⟩

theorem lastAvailIdx (other : request ≠ .setVringBase) (ring : Fin 2) :
    (after.vring ring).lastAvailIdx = (server.vring ring).lastAvailIdx := by
  cases effect with
  | base => exact absurd rfl other
  | table | polled | unchanged => rfl
  | num idx | addr idx | kick idx | call idx =>
    exact VHostUser.setRing_view Vring.lastAvailIdx (by rfl) ring

end

end MsgEffect

section Inversion

variable {msg : VHostUserLocalMsg} {mmap : Mmap} {server after : VHostUser} {code : Int}
  {result : Int × VHostUserLocalMsg} {γ : Type}

theorem assertThat_keeps {view : VHostUser → γ} (condition : Bool) :
    Keeps view (assertThat condition) :=
  .ite (.pure ()) (.throw _)

theorem vringAt_keeps {view : VHostUser → γ} (index : Nat) : Keeps view (vringAt index) :=
  .dite (fun _ => .pure _) fun _ => .ite (.throw _) (.throw _)

theorem deref_keeps {view : VHostUser → γ} (pointer : UInt64) : Keeps view (deref pointer) :=
  .bind .get fun _ => .ite (.pure ()) (.throw _)

theorem setMemTable_keeps {view : VHostUser → γ}
    (free : ∀ server memory, view { server with memory := memory } = view server) :
    Keeps view (setMemTable msg mmap) := by
  have region : ∀ idx, Keeps view (setMemRegion msg mmap idx) := fun idx =>
    .ite (.bind (.modify fun server => free server _) fun _ => .bind (assertThat_keeps _) fun _ =>
      .bind (assertThat_keeps _) fun _ => .bind (.modify fun server => free server _) fun _ =>
        .modify fun server => free server _) (.pure ())
  have regions : ∀ indices, Keeps view (setMemRegions msg mmap indices) := by
    intro indices
    induction indices with
    | nil => exact .pure ()
    | cons idx rest ih => exact .bind (region idx) fun _ => ih
  exact .bind (.modify fun server => free server _) fun _ => .bind (regions _) fun _ =>
    .ite (.bind (.throw _) fun _ => .pure 0) (.pure 0)

theorem setMemTable_ok (returned : (setMemTable msg mmap).run server = .ok code after) :
    after = { server with memory := after.memory } := by
  exact (@setMemTable_keeps msg mmap _
    (fun server : VHostUser => { server with memory := after.memory }) fun _ _ => rfl).ok returned

theorem setVringNum_ok (returned : (setVringNum msg).run server = .ok code after) :
    MsgEffect msg server .setVringNum after := by
  obtain ⟨idx, middle, found, -⟩ := bind_ok returned
  obtain ⟨named, -⟩ := vringAt_ok found
  rw [setVringNum_run named] at returned
  cases returned
  exact .num idx named

theorem setVringBase_ok (returned : (setVringBase msg).run server = .ok code after) :
    MsgEffect msg server .setVringBase after := by
  obtain ⟨idx, middle, found, -⟩ := bind_ok returned
  obtain ⟨named, -⟩ := vringAt_ok found
  rw [setVringBase_run named] at returned
  cases returned
  exact .base idx named

theorem setVringAddr_ok (returned : (setVringAddr msg).run server = .ok code after) :
    MsgEffect msg server .setVringAddr after := by
  obtain ⟨idx, middle, found, rest⟩ := bind_ok returned
  obtain ⟨named, rfl⟩ := vringAt_ok found
  by_cases mapped : middle.mem.mapped
      (mapUserAddr middle.memory (.ofNat (addrUsedUserAddr.get msg.request))) = true
  · rw [setVringAddr_run named mapped] at returned
    cases returned
    exact .addr idx named
  · -- the used ring is read through the translated pointer
    simp [deref, mapped] at rest

theorem getVringBase_ok (returned : (getVringBase msg).run server = .ok result after) :
    after = server := by
  have kept : Keeps id (getVringBase msg) :=
    .bind (vringAt_keeps _) fun _ => .bind .get fun _ => .pure _
  exact kept.ok returned

theorem setVringKick_ok (returned : (setVringKick msg).run server = .ok code after) :
    MsgEffect msg server .setVringKick after := by
  obtain ⟨idx, middle, found, rest⟩ := bind_ok returned
  obtain ⟨named, rfl⟩ := vringAt_ok found
  by_cases marked : vringNoFd (u64.get msg.request) = true
  · simp only [marked, if_true] at rest
    cases rest
    exact .polled
  rw [Bool.not_eq_true] at marked
  by_cases one : msg.fdNum = 1
  · obtain ⟨fdList, ran⟩ := @setVringKick_run middle _ _ named marked one
    rw [ran] at returned
    cases returned
    exact .kick idx named fdList
  · rw [setVringKick_unmarked named marked one] at returned
    simp at returned

theorem setVringCall_ok (returned : (setVringCall msg).run server = .ok code after) :
    MsgEffect msg server .setVringCall after := by
  by_cases marked : vringNoFd (u64.get msg.request) = true
  · simp [setVringCall, marked] at returned
    rw [← returned.2]
    exact .unchanged _ (by decide)
  rw [Bool.not_eq_true] at marked
  by_cases below : vringIdx (u64.get msg.request) < 2
  · rw [@setVringCall_run _ _ ⟨_, below⟩ rfl marked] at returned
    cases returned
    exact .call ⟨_, below⟩ rfl
  · simp [setVringCall, marked, below] at returned

theorem msgHandlers_effect {request : Request}
    (returned : (msgHandlers request msg mmap).run server = .ok result after) :
    MsgEffect msg server request after := by
  cases request with
  | setMemTable =>
    obtain ⟨code, middle, ran, rest⟩ := bind_ok returned
    cases rest
    rw [setMemTable_ok ran]
    exact .table _
  | setVringNum =>
    obtain ⟨code, middle, ran, rest⟩ := bind_ok returned
    cases rest
    exact setVringNum_ok ran
  | setVringAddr =>
    obtain ⟨code, middle, ran, rest⟩ := bind_ok returned
    cases rest
    exact setVringAddr_ok ran
  | setVringBase =>
    obtain ⟨code, middle, ran, rest⟩ := bind_ok returned
    cases rest
    exact setVringBase_ok ran
  | getVringBase =>
    rw [getVringBase_ok returned]
    exact .unchanged _ (by decide)
  | setVringKick =>
    obtain ⟨code, middle, ran, rest⟩ := bind_ok returned
    cases rest
    exact setVringKick_ok ran
  | setVringCall =>
    obtain ⟨code, middle, ran, rest⟩ := bind_ok returned
    cases rest
    exact setVringCall_ok ran
  | _ =>
    cases returned
    exact .unchanged _ (by decide)

/-- A message that is handled has a known request, and its effect. -/
theorem inMsgServer_effect (returned : (inMsgServer msg mmap).run server = .ok result after) :
    ∃ request, Wire.request.get msg.request = request.code ∧
      MsgEffect msg server request after := by
  rcases inMsgServer_cases msg mmap server with ⟨request, named, handled⟩ | failed
  · rw [handled] at returned
    exact ⟨request, named, msgHandlers_effect returned⟩
  · rw [failed] at returned
    cases returned

end Inversion

/-! ### Observations -/

theorem inMsgServer_keeps_trace (msg : VHostUserLocalMsg) (mmap : Mmap) :
    Keeps VHostUser.trace (inMsgServer msg mmap) := by
  refine .bind (assertThat_keeps _) fun _ => ?_
  split
  · rename_i request _
    cases request with
    | setMemTable => exact .bind (setMemTable_keeps fun _ _ => rfl) fun _ => .pure _
    | setVringNum =>
      exact .bind (.bind (vringAt_keeps _) fun _ => .bind (.modify fun _ => rfl) fun _ =>
        .pure _) fun _ => .pure _
    | setVringBase =>
      exact .bind (.bind (vringAt_keeps _) fun _ => .bind (.modify fun _ => rfl) fun _ =>
        .pure _) fun _ => .pure _
    | setVringAddr =>
      exact .bind (.bind (vringAt_keeps _) fun _ => .bind (.modify fun _ => rfl) fun _ =>
        .bind .get fun _ => .bind (deref_keeps _) fun _ => .bind (.modify fun _ => rfl) fun _ =>
          .bind (.modify fun _ => rfl) fun _ => .pure _) fun _ => .pure _
    | getVringBase =>
      exact .bind (vringAt_keeps _) fun _ => .bind .get fun _ => .pure _
    | setVringKick =>
      refine .bind (.bind (vringAt_keeps _) fun _ => .ite (.bind (.modify fun _ => rfl) fun _ =>
        .pure _) ?_) fun _ => .pure _
      exact .bind (assertThat_keeps _) fun _ => .bind (.modify fun _ => rfl) fun _ =>
        .ite (.bind (.modify fun _ => rfl) fun _ => .bind (.modify fun _ => rfl) fun _ =>
          .pure _) (.bind (.modify fun _ => rfl) fun _ => .pure _)
    | setVringCall =>
      exact .bind (.ite (.pure _) (.dite (fun _ => .bind (.modify fun _ => rfl) fun _ =>
        .pure _) fun _ => .throw _)) fun _ => .pure _
    | _ => exact .pure _
  · exact .pure _

end VhostUser.Server
