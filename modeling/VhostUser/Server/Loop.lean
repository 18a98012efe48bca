import VhostUser.Server.Handlers
import VhostUser.Server.RxRing
import VhostUser.Server.TxRing

/-!
Contract: what the server does between messages (`_poll_avail_vring`,
`_kick_server`, `vhost_user_poll_handler`, `send_packet`) and its main loop
(`process_fd_set`, `loop_server`).

The kernel's answers to a descriptor's handler are a parameter, and so is the
shared memory each handler finds: the guest runs concurrently. `write` to the
notification descriptors and `msync` do not change the modelled state.
-/

namespace VhostUser.Server

def pollAvailVring (index : Fin 2) : ServerM UInt32 := do
  let server ← get
  if (server.vring index).desc ≠ 0 then processAvailVring index
  else return 0

theorem pollAvailVring_eq (index : Fin 2) (server : VHostUser) :
    (pollAvailVring index).run server = if (server.vring index).desc = 0 then .ok 0 server
      else (processAvailVring index).run server := by
  by_cases absent : (server.vring index).desc = 0 <;> simp [pollAvailVring, absent]

def kickServer (kickfd count : Int) : ServerM Unit := do
  if count < 0 then return
  else if count = 0 then
    modify fun server => { server with fdList := delFdList server.fdList .fdRead kickfd }
  else
    let _ ← pollAvailVring txIdx

def vhostUserPollHandler : ServerM Unit := do
  let server ← get
  if (server.vring rxIdx).desc ≠ 0 then
    let _ ← pollAvailVring txIdx
    let server ← get
    if server.bufferSize ≠ 0 then
      let _ ← putVring rxIdx (server.buffer.take server.bufferSize.toNat)
      modify fun server => { server with bufferSize := 0 }

/-- `send_packet`, which the receiving transport thread calls once
`g_send_lock` is set. -/
def sendPacket (packet : List UInt8) : ServerM Unit := do
  let server ← get
  if server.gSendLock then
    if (server.vring rxIdx).desc ≠ 0 then
      let _ ← putRxVring rxIdx packet

/-- `accept_sock_server`, after `accept` returned `sock`. -/
def acceptSockServer (sock : Int) : ServerM Unit :=
  modify fun server => { server with
    fdList := addFdList server.fdList .fdRead sock .receiveSockServer }

/-- What the kernel and the guest hand to one handler. -/
structure HandlerInput where
  mem : GuestMem
  recv : RecvResult
  recvBuffer : VHostUserLocalMsg
  mmap : Mmap
  accepted : Int
  readCount : Int

def runHandler (node : FdNode) (input : HandlerInput) : ServerM Unit := do
  modify fun server => { server with mem := input.mem }
  match node.handler with
  | some .acceptSockServer => acceptSockServer input.accepted
  | some .receiveSockServer => receiveSockServer node.fd input.recv input.recvBuffer input.mmap
  | some .kickServer => kickServer node.fd input.readCount
  | none => return

/-- The loop of `process_fd_set` over the read list. `ready` is the set that
`select` returned. -/
def processFdSet (ready : Int → Bool) (input : Fin fdListSize → HandlerInput) :
    List (Fin fdListSize) → ServerM Unit
  | [] => pure ()
  | idx :: rest => do
      let server ← get
      let node := server.fdList.readFds idx
      if ready node.fd then runHandler node (input idx)
      processFdSet ready input rest

/-- `select` only returns descriptors that `fd_set_from_fd_list` put into the
set. -/
def selected (list : FdList) (ready : Int → Bool) (fd : Int) : Bool :=
  fd ≠ -1 && (findFdNodeByFd list.readFds fd).isSome && ready fd

/-- `loop_server`. Nothing is ever registered in the write list. -/
def loopServer (ready : Int → Bool) (input : Fin fdListSize → HandlerInput)
    (pollMem : GuestMem) : ServerM Unit := do
  let server ← get
  processFdSet (selected server.fdList ready) input (List.finRange fdListSize)
  modify fun server => { server with mem := pollMem }
  vhostUserPollHandler

end VhostUser.Server
