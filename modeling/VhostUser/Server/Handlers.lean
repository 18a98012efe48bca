import VhostUser.Server.State
import VhostUser.Wire

/-!
Contract: how the server handles one vhost-user message (`in_msg_server` and
the functions of `msg_handlers`), and how a message gets there
(`vhost_user_receive`, `receive_sock_server`).

What the kernel answers is a parameter: the outcome of each `mmap` of
`_set_mem_table`, by region index, and the outcome of `recvmsg`. So are the
bytes of the message buffer that `recvmsg` leaves as they were: the buffer is
an uninitialised local variable.

The reply that `_get_vring_base` prepares is part of the result, and
`receive_sock_server` drops it like the source does.
-/

namespace VhostUser.Server

open VhostUser.Lib VhostUser.Wire

structure VHostUserLocalMsg where
  request : ByteImage
  fdNum : Nat
  fds : Fin memoryMaxNregions → Int

def VHostUserLocalMsg.zero : VHostUserLocalMsg := ⟨fun _ => 0, 0, fun _ => 0⟩

/-- The address each `mmap` returns, by region index; `none` is `MAP_FAILED`. -/
abbrev Mmap := Fin memoryMaxNregions → Option UInt64

/-! ### Descriptor list -/

inductive FdType where
  | fdRead
  | fdWrite
deriving DecidableEq, Repr

namespace FdList

def fds (fdList : FdList) : FdType → Fin fdListSize → FdNode
  | .fdRead => fdList.readFds
  | .fdWrite => fdList.writeFds

def setNode (fdList : FdList) (type : FdType) (idx : Fin fdListSize) (node : FdNode) : FdList :=
  match type with
  | .fdRead => { fdList with readFds := Function.update fdList.readFds idx node }
  | .fdWrite => { fdList with writeFds := Function.update fdList.writeFds idx node }

end FdList

def findFdNodeByFd (fds : Fin fdListSize → FdNode) (fd : Int) : Option (Fin fdListSize) :=
  (List.finRange fdListSize).find? fun idx => (fds idx).fd = fd

/-- `add_fd_list`; a full list stays as it is. -/
def addFdList (fdList : FdList) (type : FdType) (fd : Int) (handler : FdHandler) : FdList :=
  match findFdNodeByFd (fdList.fds type) (-1) with
  | some idx => fdList.setNode type idx ⟨fd, some handler⟩
  | none => fdList

/-- `del_fd_list`; an unknown descriptor changes nothing. -/
def delFdList (fdList : FdList) (type : FdType) (fd : Int) : FdList :=
  match findFdNodeByFd (fdList.fds type) fd with
  | some idx => fdList.setNode type idx ⟨-1, none⟩
  | none => fdList

/-! ### Memory table -/

def initShmFromFd (answer : Option UInt64) : UInt64 :=
  answer.getD 0

/-- The first three fields of region `idx` in the message. -/
def msgRegion (msg : VHostUserLocalMsg) (idx : Nat) (mmapAddr : UInt64) :
    VHostUserLocalMemoryRegion where
  guestPhysAddr := .ofNat ((regionGuestPhysAddr idx).get msg.request)
  memorySize := .ofNat ((regionMemorySize idx).get msg.request)
  userspaceAddr := .ofNat ((regionUserspaceAddr idx).get msg.request)
  mmapAddr := mmapAddr

def VHostUser.setRegion (server : VHostUser) (idx : Fin memoryMaxNregions)
    (region : VHostUserLocalMemoryRegion) : VHostUser :=
  let regions := Function.update server.memory.regions idx region
  { server with memory := { server.memory with regions := regions } }

def VHostUser.setNregions (server : VHostUser) (nregions : UInt32) : VHostUser :=
  { server with memory := { server.memory with nregions := nregions } }

def setMemRegion (msg : VHostUserLocalMsg) (mmap : Mmap) (idx : Fin memoryMaxNregions) :
    ServerM Unit := do
  if 0 < msg.fds idx then
    modify fun server =>
      server.setRegion idx (msgRegion msg idx (server.memory.regions idx).mmapAddr)
    assertThat (idx < msg.fdNum)
    assertThat (0 < msg.fds idx)
    modify fun server => server.setRegion idx (msgRegion msg idx (initShmFromFd (mmap idx)))
    modify fun server => server.setNregions (server.memory.nregions + 1)

def setMemRegions (msg : VHostUserLocalMsg) (mmap : Mmap) :
    List (Fin memoryMaxNregions) → ServerM Unit
  | [] => pure ()
  | idx :: rest => do
      setMemRegion msg mmap idx
      setMemRegions msg mmap rest

/-- `_set_mem_table`. With more regions announced than `fds` has entries the
loop reads past its end. -/
def setMemTable (msg : VHostUserLocalMsg) (mmap : Mmap) : ServerM Int := do
  modify fun server => server.setNregions 0
  let nregions := memoryNregions.get msg.request
  setMemRegions msg mmap ((List.finRange memoryMaxNregions).take nregions)
  if memoryMaxNregions < nregions then throw .outOfBounds
  return 0

def installed (msg : VHostUserLocalMsg) (mmap : Mmap) (memory : VHostUserLocalMemory)
    (indices : List (Fin memoryMaxNregions)) : VHostUserLocalMemory where
  nregions := memory.nregions + .ofNat indices.length
  regions := fun idx =>
    if idx ∈ indices then msgRegion msg idx (initShmFromFd (mmap idx)) else memory.regions idx

section MemTable

variable {msg : VHostUserLocalMsg} {mmap : Mmap} {server : VHostUser} {idx : Fin memoryMaxNregions}

theorem setMemRegion_run (valid : 0 < msg.fds idx) (received : idx < msg.fdNum) :
    (setMemRegion msg mmap idx).run server =
      .ok () { server with memory := installed msg mmap server.memory [idx] } := by
  have stored : Function.update server.memory.regions idx
      (msgRegion msg idx (initShmFromFd (mmap idx))) = fun other =>
      if other = idx then msgRegion msg other (initShmFromFd (mmap other))
      else server.memory.regions other := by
    funext other
    by_cases same : other = idx
    · simp [same]
    · simp [same]
  simp only [setMemRegion, valid, received, if_true, decide_true, assertThat_true,
    EStateM.run_bind, EStateM.run_modify, EStateM.run_pure, VHostUser.setNregions,
    VHostUser.setRegion, installed, Function.update_idem, List.length_singleton,
    List.mem_singleton, stored]
  rfl

theorem installed_cons (memory : VHostUserLocalMemory) (idx : Fin memoryMaxNregions)
    (rest : List (Fin memoryMaxNregions)) :
    installed msg mmap (installed msg mmap memory [idx]) rest =
      installed msg mmap memory (idx :: rest) := by
  unfold installed
  congr 1
  · rw [UInt32.add_assoc]
    rw [← UInt32.ofNat_add, List.length_singleton, List.length_cons, Nat.add_comm]
  funext other
  by_cases later : other ∈ rest
  · simp [later]
  · by_cases same : other = idx
    · simp [same]
    · simp [later, same]

theorem setMemRegion_skip (missing : ¬ 0 < msg.fds idx) :
    (setMemRegion msg mmap idx).run server = .ok () server := by
  rw [setMemRegion, if_neg missing]
  rfl

theorem setMemRegion_unreceived (number : 0 < msg.fds idx) (beyond : msg.fdNum ≤ idx.val) :
    ∃ after, (setMemRegion msg mmap idx).run server = .error .assertion after := by
  have failed : decide (idx.val < msg.fdNum) = false := decide_eq_false (Nat.not_lt.mpr beyond)
  refine ⟨server.setRegion idx (msgRegion msg idx (server.memory.regions idx).mmapAddr), ?_⟩
  rw [setMemRegion, if_pos number, failed]
  rfl

/-- The loop stores the regions with a descriptor, or it stops at one whose descriptor was not
received. -/
theorem setMemRegions_cases (indices : List (Fin memoryMaxNregions)) (server : VHostUser) :
    ((∃ idx ∈ indices, 0 < msg.fds idx ∧ msg.fdNum ≤ idx.val) ∧
        ∃ after, (setMemRegions msg mmap indices).run server = .error .assertion after) ∨
      ((∀ idx ∈ indices, 0 < msg.fds idx → idx.val < msg.fdNum) ∧
        (setMemRegions msg mmap indices).run server = .ok () { server with
          memory := installed msg mmap server.memory
            (indices.filter fun idx => decide (0 < msg.fds idx)) }) := by
  induction indices generalizing server with
  | nil => exact .inr ⟨by simp, by simp [setMemRegions, installed]⟩
  | cons idx rest ih =>
    simp only [List.exists_mem_cons_iff, List.forall_mem_cons]
    rw [setMemRegions]
    by_cases number : 0 < msg.fds idx
    · by_cases received : idx.val < msg.fdNum
      · rw [run_bind_ok (setMemRegion_run number received),
          List.filter_cons_of_pos (by simpa using number)]
        rcases ih { server with memory := installed msg mmap server.memory [idx] } with
          ⟨beyond, failed⟩ | ⟨later, ran⟩
        · exact .inl ⟨.inr beyond, failed⟩
        · simp only [installed_cons] at ran
          exact .inr ⟨⟨fun _ => received, later⟩, ran⟩
      · have beyond := Nat.not_lt.mp received
        obtain ⟨after, failed⟩ := @setMemRegion_unreceived msg mmap server idx number beyond
        exact .inl ⟨.inl ⟨number, beyond⟩, after, by rw [EStateM.run_bind, failed]⟩
    · rw [run_bind_ok (setMemRegion_skip number),
        List.filter_cons_of_neg (by simpa using number)]
      rcases ih server with ⟨beyond, failed⟩ | ⟨later, ran⟩
      · exact .inl ⟨.inr beyond, failed⟩
      · exact .inr ⟨⟨fun positive => absurd positive number, later⟩, ran⟩

theorem setMemTable_run {count : Nat} (announced : memoryNregions.get msg.request = count)
    (small : count ≤ memoryMaxNregions)
    (valid : ∀ idx : Fin memoryMaxNregions, idx < count → 0 < msg.fds idx)
    (received : count ≤ msg.fdNum) :
    (setMemTable msg mmap).run server = .ok 0 { server with
      memory := installed msg mmap { server.memory with nregions := 0 }
        ((List.finRange memoryMaxNregions).take count) } := by
  have below : ∀ idx ∈ (List.finRange memoryMaxNregions).take count, idx.val < count := by
    intro idx member
    obtain ⟨position, inRange, rfl⟩ := List.mem_take_iff_getElem.mp member
    simp only [List.getElem_finRange, Fin.val_cast]
    omega
  rcases @setMemRegions_cases msg mmap _ (server.setNregions 0) with
    ⟨⟨idx, member, -, beyond⟩, -⟩ | ⟨-, taken⟩
  · exact absurd ((below idx member).trans_le received) (Nat.not_lt.mpr beyond)
  rw [List.filter_eq_self.mpr fun idx member => by simpa using valid idx (below idx member)]
    at taken
  simp only [setMemTable, announced, EStateM.run_bind, EStateM.run_modify, taken,
    Nat.not_lt.mpr small, if_false, EStateM.run_pure]
  rfl

theorem installed_active (memory : VHostUserLocalMemory) {count : Nat}
    (small : count ≤ memoryMaxNregions) :
    (installed msg mmap { memory with nregions := 0 }
      ((List.finRange memoryMaxNregions).take count)).active =
      ((List.finRange memoryMaxNregions).take count).map fun idx : Fin memoryMaxNregions =>
        msgRegion msg idx (initShmFromFd (mmap idx)) := by
  have length : (UInt32.ofNat ((List.finRange memoryMaxNregions).take count).length).toNat =
      count := by
    rw [List.length_take, List.length_finRange, Nat.min_eq_left small, UInt32.toNat_ofNat']
    exact Nat.mod_eq_of_lt (lt_of_le_of_lt small (by decide))
  unfold VHostUserLocalMemory.active installed
  simp only [UInt32.zero_add, length]
  apply List.map_congr_left
  intro idx member
  rw [if_pos member]

end MemTable

/-! ### Rings -/

/-- `int idx = index; assert(idx < VHOST_CLIENT_VRING_NUM)` and the array
access that follows: a negative `idx` passes the assertion. -/
def vringAt (index : Nat) : ServerM (Fin 2) :=
  if below : index < 2 then pure ⟨index, below⟩
  else if index < 2 ^ 31 then throw .assertion
  else throw .outOfBounds

def setVringNum (msg : VHostUserLocalMsg) : ServerM Int := do
  let idx ← vringAt (stateIndex.get msg.request)
  modify fun server => server.setRing idx
    { server.vring idx with num := .ofNat (stateNum.get msg.request) }
  return 0

def setVringAddr (msg : VHostUserLocalMsg) : ServerM Int := do
  let idx ← vringAt (addrIndex.get msg.request)
  modify fun server => server.setRing idx
    { server.vring idx with
      desc := mapUserAddr server.memory (.ofNat (addrDescUserAddr.get msg.request))
      avail := mapUserAddr server.memory (.ofNat (addrAvailUserAddr.get msg.request))
      used := mapUserAddr server.memory (.ofNat (addrUsedUserAddr.get msg.request)) }
  let server ← get
  deref (server.vring idx).used
  modify fun server => server.setRing idx
    { server.vring idx with lastUsedIdx := (server.mem.used (server.vring idx).used).idx }
  modify fun server => { server with gSendLock := true }
  return 0

def setVringBase (msg : VHostUserLocalMsg) : ServerM Int := do
  let idx ← vringAt (stateIndex.get msg.request)
  modify fun server => server.setRing idx
    { server.vring idx with lastAvailIdx := .ofNat (stateNum.get msg.request) }
  return 0

def getVringBase (msg : VHostUserLocalMsg) : ServerM (Int × VHostUserLocalMsg) := do
  let idx ← vringAt (stateIndex.get msg.request)
  let server ← get
  let answered := stateNum.put (server.vring idx).lastAvailIdx.toNat msg.request
  return (1, { msg with request := Wire.size.put 8 answered })

def setVringKick (msg : VHostUserLocalMsg) : ServerM Int := do
  let value := u64.get msg.request
  let idx ← vringAt (vringIdx value)
  if vringNoFd value then
    modify fun server => { server with isPolling := true }
  else
    assertThat (msg.fdNum = 1)
    modify fun server => server.setRing idx { server.vring idx with kickfd := msg.fds 0 }
    if idx = txIdx then
      modify fun server => { server with
        fdList := addFdList server.fdList .fdRead (server.vring idx).kickfd .kickServer }
    modify fun server => { server with isPolling := false }
  return 0

/-- `_set_vring_call`, which checks neither the ring nor the descriptor
count. -/
def setVringCall (msg : VHostUserLocalMsg) : ServerM Int := do
  let value := u64.get msg.request
  if vringNoFd value then return 0
  if below : vringIdx value < 2 then
    let idx : Fin 2 := ⟨vringIdx value, below⟩
    modify fun server => server.setRing idx { server.vring idx with callfd := msg.fds 0 }
    return 0
  else throw .outOfBounds

section RingHandlers

variable {server after : VHostUser} {msg : VHostUserLocalMsg} {idx : Fin 2}

theorem vringAt_run {index : Nat} (named : index = idx) :
    (vringAt index).run server = .ok idx server := by
  subst named
  rw [vringAt, dif_pos idx.isLt]
  rfl

theorem vringAt_ok {index : Nat} (returned : (vringAt index).run server = .ok idx after) :
    index = idx ∧ after = server := by
  unfold vringAt at returned
  split at returned
  · cases returned
    exact ⟨rfl, rfl⟩
  · split at returned <;> simp at returned

theorem setVringNum_run (named : stateIndex.get msg.request = idx) :
    (setVringNum msg).run server = .ok 0 (server.setRing idx
      { server.vring idx with num := .ofNat (stateNum.get msg.request) }) := by
  simp only [setVringNum, EStateM.run_bind, vringAt_run named, EStateM.run_modify, EStateM.run_pure]

theorem setVringBase_run (named : stateIndex.get msg.request = idx) :
    (setVringBase msg).run server = .ok 0 (server.setRing idx
      { server.vring idx with lastAvailIdx := .ofNat (stateNum.get msg.request) }) := by
  simp only [setVringBase, EStateM.run_bind, vringAt_run named, EStateM.run_modify,
    EStateM.run_pure]

def addressed (server : VHostUser) (idx : Fin 2) (msg : VHostUserLocalMsg) : Vring :=
  let used := mapUserAddr server.memory (.ofNat (addrUsedUserAddr.get msg.request))
  { server.vring idx with
    desc := mapUserAddr server.memory (.ofNat (addrDescUserAddr.get msg.request))
    avail := mapUserAddr server.memory (.ofNat (addrAvailUserAddr.get msg.request))
    used := used
    lastUsedIdx := (server.mem.used used).idx }

theorem setVringAddr_run (named : addrIndex.get msg.request = idx)
    (mapped : server.mem.mapped
      (mapUserAddr server.memory (.ofNat (addrUsedUserAddr.get msg.request))) = true) :
    (setVringAddr msg).run server = .ok 0
      { server.setRing idx (addressed server idx msg) with gSendLock := true } := by
  simp only [setVringAddr, EStateM.run_bind, vringAt_run named, EStateM.run_modify,
    EStateM.run_get, EStateM.run_pure, VHostUser.setRing_same]
  rw [@deref_run (server.setRing idx _) _ mapped]
  simp [VHostUser.setRing, addressed]

section

variable (named : vringIdx (u64.get msg.request) = idx)
  (validfd : vringNoFd (u64.get msg.request) = false)
include named validfd

theorem setVringKick_valid (one : msg.fdNum = 1) :
    (setVringKick msg).run server = .ok 0
      { server.setRing idx { server.vring idx with kickfd := msg.fds 0 } with
        fdList := if idx = txIdx then addFdList server.fdList .fdRead (msg.fds 0) .kickServer
          else server.fdList
        isPolling := false } := by
  by_cases tx : idx = txIdx
  · simp [setVringKick, vringAt_run named, validfd, one, tx]
    rfl
  · simp [setVringKick, vringAt_run named, validfd, one, tx]
    rfl

theorem setVringKick_run (one : msg.fdNum = 1) :
    ∃ fdList, (setVringKick msg).run server = .ok 0
      { server.setRing idx { server.vring idx with kickfd := msg.fds 0 } with
        fdList := fdList, isPolling := false } :=
  ⟨_, setVringKick_valid named validfd one⟩

theorem setVringKick_unmarked (none : msg.fdNum ≠ 1) :
    (setVringKick msg).run server = .error .assertion server := by
  simp [setVringKick, vringAt_run named, validfd, none, assertThat]

theorem setVringCall_run :
    (setVringCall msg).run server = .ok 0
      (server.setRing idx { server.vring idx with callfd := msg.fds 0 }) := by
  have below : vringIdx (u64.get msg.request) < 2 := by omega
  have same : (⟨vringIdx (u64.get msg.request), below⟩ : Fin 2) = idx := Fin.ext named
  simp only [setVringCall, validfd, Bool.false_eq_true, if_false, below, dif_pos, same,
    EStateM.run_bind, EStateM.run_modify, EStateM.run_pure]

end

end RingHandlers

/-! ### Dispatch -/

/-- The table `msg_handlers`. Handlers that only log are constants; `VHOST_USER_NET_SET_BACKEND`
has `_set_user_echo` in its slot and `VHOST_USER_ECHO` none. -/
def msgHandlers (request : Request) (msg : VHostUserLocalMsg) (mmap : Mmap) :
    ServerM (Int × VHostUserLocalMsg) := do
  match request with
  | .getFeatures => return (1, msg)
  | .setFeatures | .setOwner | .resetOwner => return (0, msg)
  | .setMemTable => return (← setMemTable msg mmap, msg)
  | .setLogBase | .setLogFd => return (0, msg)
  | .setVringNum => return (← setVringNum msg, msg)
  | .setVringAddr => return (← setVringAddr msg, msg)
  | .setVringBase => return (← setVringBase msg, msg)
  | .getVringBase => getVringBase msg
  | .setVringKick => return (← setVringKick msg, msg)
  | .setVringCall => return (← setVringCall msg, msg)
  | .setVringErr | .netSetBackend | .echo => return (0, msg)

def inMsgServer (msg : VHostUserLocalMsg) (mmap : Mmap) :
    ServerM (Int × VHostUserLocalMsg) := do
  let code := request.get msg.request
  assertThat (0 < code && code < 17)
  match Request.ofCode? code with
  | some request => msgHandlers request msg mmap
  | none => return (0, msg)

theorem inMsgServer_eq {msg : VHostUserLocalMsg} {request : Request} (mmap : Mmap)
    (named : Wire.request.get msg.request = request.code) :
    inMsgServer msg mmap = msgHandlers request msg mmap := by
  have known : (0 < request.code && request.code < 17 : Bool) = true := by
    cases request <;> rfl
  simp [inMsgServer, named, known]

/-- A message is handled as the request it names, or the assertion stops the server. -/
theorem inMsgServer_cases (msg : VHostUserLocalMsg) (mmap : Mmap) (server : VHostUser) :
    (∃ request : Request, Wire.request.get msg.request = request.code ∧
      inMsgServer msg mmap = msgHandlers request msg mmap) ∨
      (inMsgServer msg mmap).run server = .error .assertion server := by
  by_cases known : Wire.request.get msg.request < 17 ∧ Wire.request.get msg.request ≠ 0
  · obtain ⟨request, named⟩ := Request.exists_code known.1 known.2
    exact .inl ⟨request, named, inMsgServer_eq mmap named⟩
  right
  have failed : (0 < Wire.request.get msg.request &&
      Wire.request.get msg.request < 17 : Bool) = false := by
    rw [Bool.and_eq_false_iff, decide_eq_false_iff_not, decide_eq_false_iff_not]
    omega
  rw [inMsgServer, failed]
  rfl

inductive RecvResult where
  | data (bytes : List UInt8) (fds : List Int)
  | closed
  | failed
deriving DecidableEq, Repr

/-- The buffer after `vhost_user_receive`. More descriptors than `fds` has room for do not occur:
the control buffer is of that size. -/
def vhostUserReceive (result : RecvResult) (stale : VHostUserLocalMsg) : VHostUserLocalMsg :=
  match result with
  | .data bytes fds =>
    { request := ByteImage.overlay bytes stale.request
      fdNum := fds.length
      fds := fun idx => fds.getD idx (stale.fds idx) }
  | .closed | .failed => { stale with fdNum := 0 }

/-- `receive_sock_server`. The message is dispatched whatever `recvmsg`
returned. -/
def receiveSockServer (sock : Int) (result : RecvResult) (stale : VHostUserLocalMsg)
    (mmap : Mmap) : ServerM Unit := do
  if result = .closed then
    modify fun server => { server with fdList := delFdList server.fdList .fdRead sock }
  let _ ← inMsgServer (vhostUserReceive result stale) mmap

end VhostUser.Server
