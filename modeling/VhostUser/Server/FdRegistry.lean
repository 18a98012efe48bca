import VhostUser.Lib.SlotTable
import VhostUser.Server.TableUpdate

/-!
Contract: the descriptors the server listens on.

`read_fds` has ten slots, and `-1` marks a free one. `accept_sock_server` and `_set_vring_kick` fill
the first free slot and ignore that there may be none; `receive_sock_server` and `_kick_server` free
their own slot at the end of file. Nothing removes the kick descriptor that a new one replaces.

A run is any sequence of handlers that `process_fd_set` calls on the slots of the list. The kernel
hands out descriptors the process does not hold.

Owns: in which runs the list holds the listening socket, every open connection and the kick
descriptor last received, and no other kick descriptor.

Does not own: the order in which one pass of `loop_server` calls the handlers (`Loop`).
-/

namespace VhostUser.Server

open VhostUser.Lib VhostUser.Wire
open VHostUser

instance : NeZero fdListSize := ⟨by decide⟩

instance : NeZero memoryMaxNregions := ⟨by decide⟩

section Slots

variable {fdList : FdList} {fd : Int} {handler : FdHandler} {fds : Fin fdListSize → FdNode}
  {slot : Fin fdListSize}

theorem findFdNodeByFd_eq_none : findFdNodeByFd fds fd = none ↔ ∀ slot, (fds slot).fd ≠ fd := by
  unfold findFdNodeByFd
  simp

theorem findFdNodeByFd_fd (found : findFdNodeByFd fds fd = some slot) : (fds slot).fd = fd := by
  have test := List.find?_some found
  simpa using test

theorem addFdList_readFds (free : ∃ slot, (fdList.readFds slot).fd = -1) :
    ∃ slot, (fdList.readFds slot).fd = -1 ∧
      (addFdList fdList .fdRead fd handler).readFds =
        Function.update fdList.readFds slot ⟨fd, some handler⟩ := by
  obtain ⟨slot, empty⟩ := free
  cases found : findFdNodeByFd fdList.readFds (-1) with
  | none => exact absurd empty (findFdNodeByFd_eq_none.mp found slot)
  | some first =>
    refine ⟨first, findFdNodeByFd_fd found, ?_⟩
    unfold addFdList
    rw [show findFdNodeByFd (fdList.fds .fdRead) (-1) = some first from found]
    rfl

theorem addFdList_full (full : ∀ slot, (fdList.readFds slot).fd ≠ -1) :
    addFdList fdList .fdRead fd handler = fdList := by
  unfold addFdList
  rw [show findFdNodeByFd (fdList.fds .fdRead) (-1) = none from findFdNodeByFd_eq_none.mpr full]

theorem delFdList_readFds (held : (fdList.readFds slot).fd = fd)
    (only : ∀ other, (fdList.readFds other).fd = fd → other = slot) :
    (delFdList fdList .fdRead fd).readFds = Function.update fdList.readFds slot ⟨-1, none⟩ := by
  cases found : findFdNodeByFd fdList.readFds fd with
  | none => exact absurd held (findFdNodeByFd_eq_none.mp found slot)
  | some first =>
    have same : first = slot := only first (findFdNodeByFd_fd found)
    unfold delFdList
    rw [show findFdNodeByFd (fdList.fds .fdRead) fd = some first from found, same]
    rfl

end Slots

/-! ### What a handler does to the list -/

def VHostUser.registry (server : VHostUser) : FdList × Int :=
  (server.fdList, (server.vring txIdx).kickfd)

/-- A `VHOST_USER_SET_VRING_KICK` message for the transmit ring that announces a descriptor. -/
def isTxKick (msg : VHostUserLocalMsg) : Bool :=
  isRequest .setVringKick msg && vringIdx (u64.get msg.request) = txIdx &&
    !vringNoFd (u64.get msg.request)

theorem registry_availWorkFree : AvailWorkFree registry where
  used := fun _ _ _ => rfl
  packet := fun _ _ _ => rfl
  advance := fun _ _ => Prod.ext rfl (setRing_view Vring.kickfd (by rfl) txIdx)

theorem pollAvailVring_registry (index : Fin 2) : Keeps registry (pollAvailVring index) :=
  .bind .get fun _ => .ite
    (fun server => registry_availWorkFree.processAvailVring index server) (.pure _)

section Messages

variable {msg : VHostUserLocalMsg} {mmap : Mmap} {server after : VHostUser} {code : Int}
  {result : Int × VHostUserLocalMsg}

theorem setVringKick_registry (named : Wire.request.get msg.request = Request.setVringKick.code)
    (returned : (setVringKick msg).run server = .ok code after) :
    (isTxKick msg = true ∧ msg.fdNum = 1 ∧ after.registry =
      (addFdList server.fdList .fdRead (msg.fds 0) .kickServer, msg.fds 0)) ∨
      (isTxKick msg = false ∧ after.registry = server.registry) := by
  have request : isRequest .setVringKick msg = true := by simp [isRequest, named]
  obtain ⟨idx, middle, found, rest⟩ := bind_ok returned
  obtain ⟨ring, rfl⟩ := vringAt_ok found
  by_cases marked : vringNoFd (u64.get msg.request) = true
  · right
    simp only [marked, if_true] at rest
    cases rest
    exact ⟨by simp [isTxKick, marked], rfl⟩
  rw [Bool.not_eq_true] at marked
  by_cases one : msg.fdNum = 1
  · rw [setVringKick_valid ring marked one] at returned
    cases returned
    by_cases transmit : idx = txIdx
    · left
      subst transmit
      refine ⟨by simp [isTxKick, request, ring, marked], one, ?_⟩
      simp [registry]
    · right
      have different : ¬ vringIdx (u64.get msg.request) = txIdx := by
        rw [ring]
        exact fun same => transmit (Fin.ext same)
      refine ⟨by simp [isTxKick, different], ?_⟩
      simp [registry, transmit, setRing, Ne.symm transmit]
  · rw [setVringKick_unmarked ring marked one] at returned
    cases returned

/-- Only a descriptor for the transmit ring changes the list or the ring's kick descriptor. -/
theorem inMsgServer_registry (returned : (inMsgServer msg mmap).run server = .ok result after) :
    (isTxKick msg = true ∧ msg.fdNum = 1 ∧ after.registry =
      (addFdList server.fdList .fdRead (msg.fds 0) .kickServer, msg.fds 0)) ∨
      (isTxKick msg = false ∧ after.registry = server.registry) := by
  rcases inMsgServer_cases msg mmap server with ⟨request, named, handled⟩ | rejected
  · rw [handled] at returned
    by_cases kick : request = .setVringKick
    · subst kick
      obtain ⟨code, middle, ran, rest⟩ := bind_ok returned
      cases rest
      exact setVringKick_registry named ran
    right
    have other : isTxKick msg = false := by
      simp [isTxKick, isRequest, named, kick]
    refine ⟨other, ?_⟩
    cases msgHandlers_effect returned with
    | table | unchanged => rfl
    | num | addr | base | call =>
      exact Prod.ext rfl (setRing_view Vring.kickfd (by rfl) txIdx)
    | kick | polled => exact absurd rfl kick
  · rw [rejected] at returned
    cases returned

theorem inMsgServer_registry_empty (empty : msg.fdNum = 0)
    (returned : (inMsgServer msg mmap).run server = .ok result after) :
    after.registry = server.registry := by
  rcases inMsgServer_registry returned with ⟨-, one, -⟩ | ⟨-, same⟩
  · omega
  · exact same

end Messages

/-! ### The invariant -/

/-- The list and what it is to hold: the listening socket, the open connections and the kick
descriptor that counts. `held` are the descriptors of the process. -/
structure Registered (listening : Int) (fds : Fin fdListSize → FdNode) (kickfd : Int)
    (held connections : List Int) (current : Option Int) : Prop where
  valid : -1 ∉ held
  distinct : ∀ slot other, (fds slot).fd = (fds other).fd → (fds slot).fd ≠ -1 → slot = other
  held : ∀ slot, (fds slot).fd ≠ -1 → (fds slot).fd ∈ held
  listens : listening ≠ -1 ∧ ∃ slot, fds slot = ⟨listening, some .acceptSockServer⟩
  connected : ∀ sock ∈ connections, sock ≠ -1 ∧ ∃ slot, fds slot = ⟨sock, some .receiveSockServer⟩
  kicks : ∀ slot, (fds slot).handler = some .kickServer → (fds slot).fd ≠ -1
  current : ∀ fd, current = some fd → kickfd = fd ∧ (∃ slot, fds slot = ⟨fd, some .kickServer⟩) ∧
    ∀ slot, (fds slot).handler = some .kickServer → (fds slot).fd = fd

namespace Registered

variable {listening kickfd fd : Int} {fds : Fin fdListSize → FdNode} {held connections : List Int}
  {current : Option Int} {slot : Fin fdListSize}

theorem ne_of_free (free : (fds slot).fd = -1) {entry : FdNode} (live : entry.fd ≠ -1) :
    fds slot ≠ entry := by
  rintro rfl
  exact live free

theorem current_live (registered : Registered listening fds kickfd held connections (some fd)) :
    fd ≠ -1 := by
  obtain ⟨-, ⟨slot, entry⟩, -⟩ := registered.current fd rfl
  have live := registered.kicks slot (by rw [entry])
  rwa [entry] at live

variable (registered : Registered listening fds kickfd held connections current)

include registered

/-- More descriptors may be held, and a kick descriptor may stop to count. -/
theorem weaken {more : List Int} (superset : held ⊆ more) (valid : -1 ∉ more) {later : Option Int}
    (same : later = current ∨ later = none) :
    Registered listening fds kickfd more connections later where
  valid := valid
  distinct := registered.distinct
  held := fun slot live => superset (registered.held slot live)
  listens := registered.listens
  connected := registered.connected
  kicks := registered.kicks
  current := by
    intro fd counts
    rcases same with same | gone
    · exact registered.current fd (same ▸ counts)
    · rw [gone] at counts
      cases counts

/-- One slot is rewritten, with a descriptor that nobody holds or as a free slot. -/
theorem store {node : FdNode} {kickfdLater : Int} {heldLater connectionsLater : List Int}
    {currentLater : Option Int} (new : node.fd ∉ held) (valid : -1 ∉ heldLater)
    (heldHere : node.fd ≠ -1 → node.fd ∈ heldLater)
    (heldElsewhere : ∀ fd ∈ held, fd ≠ (fds slot).fd → fd ∈ heldLater)
    (listens : fds slot ≠ ⟨listening, some .acceptSockServer⟩)
    (connected : ∀ sock ∈ connectionsLater, sock ≠ -1 ∧ (node = ⟨sock, some .receiveSockServer⟩ ∨
      sock ∈ connections ∧ fds slot ≠ ⟨sock, some .receiveSockServer⟩))
    (kicks : node.handler = some .kickServer → node.fd ≠ -1)
    (counts : ∀ fd, currentLater = some fd → kickfdLater = fd ∧
      ((node = ⟨fd, some .kickServer⟩ ∧ ∀ other, (fds other).handler ≠ some .kickServer) ∨
        (current = some fd ∧ fds slot ≠ ⟨fd, some .kickServer⟩ ∧
          node.handler ≠ some .kickServer))) :
    Registered listening (Function.update fds slot node) kickfdLater heldLater connectionsLater
      currentLater := by
  have unheld : ∀ other, (fds other).fd = node.fd → (fds other).fd = -1 := by
    intro other same
    by_contra live
    exact new (same ▸ registered.held other live)
  constructor
  · exact valid
  · intro one other same live
    by_cases oneHere : one = slot
    · by_cases otherHere : other = slot
      · rw [oneHere, otherHere]
      · rw [oneHere, Function.update_self] at same live
        rw [Function.update_of_ne otherHere] at same
        exact absurd (same.trans (unheld other same.symm)) live
    · rw [Function.update_of_ne oneHere] at same live
      by_cases otherHere : other = slot
      · rw [otherHere, Function.update_self] at same
        exact absurd (unheld one same) live
      · rw [Function.update_of_ne otherHere] at same
        exact registered.distinct one other same live
  · refine (Function.forall_update_iff fds fun _ entry => entry.fd ≠ -1 → entry.fd ∈ heldLater).mpr
      ⟨heldHere, fun one here live => ?_⟩
    refine heldElsewhere _ (registered.held one live) fun same => ?_
    exact here (registered.distinct one slot same live)
  · exact ⟨registered.listens.1, exists_update_of_ne registered.listens.2 listens⟩
  · intro sock member
    obtain ⟨live, stored | ⟨before, different⟩⟩ := connected sock member
    · exact ⟨live, slot, by rw [Function.update_self, stored]⟩
    · exact ⟨live, exists_update_of_ne (registered.connected sock before).2 different⟩
  · exact (Function.forall_update_iff fds fun _ entry =>
      entry.handler = some .kickServer → entry.fd ≠ -1).mpr
        ⟨kicks, fun one _ => registered.kicks one⟩
  · intro fd later
    have only := Function.forall_update_iff fds (b := node) (a := slot) fun _ entry =>
      entry.handler = some .kickServer → entry.fd = fd
    obtain ⟨same, ⟨stored, first⟩ | ⟨before, different, other⟩⟩ := counts fd later
    · exact ⟨same, ⟨slot, by rw [Function.update_self, stored]⟩,
        only.mpr ⟨fun _ => congrArg FdNode.fd stored, fun one _ kick => absurd kick (first one)⟩⟩
    · obtain ⟨-, entry, each⟩ := registered.current fd before
      exact ⟨same, exists_update_of_ne entry different,
        only.mpr ⟨fun kick => absurd kick other, fun one _ => each one⟩⟩

/-- `accept` succeeded, or it failed and the free slot stays free. -/
theorem accept (free : (fds slot).fd = -1) (new : fd ∉ held) :
    Registered listening (Function.update fds slot ⟨fd, some .receiveSockServer⟩) kickfd
      ((if fd = -1 then [] else [fd]) ++ held) ((if fd = -1 then [] else [fd]) ++ connections)
      current := by
  apply registered.store new
  · split
    · exact registered.valid
    next live => exact List.not_mem_cons_of_ne_of_not_mem (Ne.symm live) registered.valid
  · intro live
    rw [if_neg live]
    exact List.mem_cons_self
  · exact fun other member _ => List.mem_append_right _ member
  · exact ne_of_free free registered.listens.1
  · intro sock member
    rcases List.mem_append.mp member with here | before
    · split at here
      · cases here
      next live =>
        obtain rfl := List.mem_singleton.mp here
        exact ⟨live, .inl rfl⟩
    · have connected := registered.connected sock before
      exact ⟨connected.1, .inr ⟨before, ne_of_free free connected.1⟩⟩
  · exact nofun
  · rintro kick rfl
    refine ⟨(registered.current kick rfl).1, .inr ⟨rfl, ?_, by simp⟩⟩
    exact ne_of_free free registered.current_live

theorem kick (free : (fds slot).fd = -1) (new : fd ∉ held) (live : fd ≠ -1)
    (first : ∀ other, (fds other).handler ≠ some .kickServer) :
    Registered listening (Function.update fds slot ⟨fd, some .kickServer⟩) fd (fd :: held)
      connections (some fd) := by
  apply registered.store new
  · exact List.not_mem_cons_of_ne_of_not_mem live.symm registered.valid
  · exact fun _ => List.mem_cons_self
  · exact fun other member _ => List.mem_cons_of_mem _ member
  · exact ne_of_free free registered.listens.1
  · intro sock member
    have connected := registered.connected sock member
    exact ⟨connected.1, .inr ⟨member, ne_of_free free connected.1⟩⟩
  · exact fun _ => live
  · rintro _ ⟨⟩
    exact ⟨rfl, .inl ⟨rfl, first⟩⟩

theorem disconnect (handler : (fds slot).handler = some .receiveSockServer) :
    Registered listening (Function.update fds slot ⟨-1, none⟩) kickfd
      (held.filter fun fd => fd ≠ (fds slot).fd) (connections.filter fun fd => fd ≠ (fds slot).fd)
      current := by
  have other : ∀ entry : FdNode, entry.handler ≠ some .receiveSockServer → fds slot ≠ entry := by
    rintro entry different rfl
    exact different handler
  apply registered.store registered.valid
  · exact fun member => registered.valid (List.mem_filter.mp member).1
  · exact fun dead => absurd rfl dead
  · exact fun fd member different => List.mem_filter.mpr ⟨member, by simpa using different⟩
  · exact other _ (by simp)
  · intro sock member
    obtain ⟨before, different⟩ := List.mem_filter.mp member
    refine ⟨(registered.connected sock before).1, .inr ⟨before, fun same => ?_⟩⟩
    rw [same] at different
    simp at different
  · exact nofun
  · rintro kick rfl
    exact ⟨(registered.current kick rfl).1, .inr ⟨rfl, other _ (by simp), by simp⟩⟩

theorem kickEnds (handler : (fds slot).handler = some .kickServer) :
    Registered listening (Function.update fds slot ⟨-1, none⟩) kickfd held connections none := by
  have other : ∀ entry : FdNode, entry.handler ≠ some .kickServer → fds slot ≠ entry := by
    rintro entry different rfl
    exact different handler
  apply registered.store registered.valid registered.valid
  · exact fun dead => absurd rfl dead
  · exact fun fd member _ => member
  · exact other _ (by simp)
  · intro sock member
    exact ⟨(registered.connected sock member).1, .inr ⟨member, other _ (by simp)⟩⟩
  · exact nofun
  · rintro _ ⟨⟩

end Registered

/-! ### Runs -/

/-- The server, the descriptors its process holds, its connections, and the kick descriptor of the
transmit ring if it was received last and has not ended. -/
structure FdRun where
  server : VHostUser
  held : List Int
  connections : List Int
  current : Option Int

structure FdEvent where
  slot : Fin fdListSize
  input : HandlerInput

def granted (node : FdNode) (input : HandlerInput) : List Int :=
  match node.handler, input.recv with
  | some .acceptSockServer, _ => if input.accepted = -1 then [] else [input.accepted]
  | some .receiveSockServer, .data _ fds => fds
  | _, _ => []

def HandlerInput.msg (input : HandlerInput) : VHostUserLocalMsg :=
  vhostUserReceive input.recv input.recvBuffer

def noteKick (current : Option Int) (msg : VHostUserLocalMsg) : Option Int :=
  if isTxKick msg then some (msg.fds 0)
  else if isRequest .setVringKick msg && vringIdx (u64.get msg.request) = txIdx then none
  else current

/-- The run after the handler of `node` returned in `after`. -/
def FdRun.note (run : FdRun) (node : FdNode) (input : HandlerInput) (after : VHostUser) : FdRun :=
  match node.handler, input.recv with
  | some .acceptSockServer, _ =>
    { run with server := after, held := granted node input ++ run.held
               connections := granted node input ++ run.connections }
  | some .receiveSockServer, .data _ _ =>
    { run with server := after, held := granted node input ++ run.held
               current := noteKick run.current input.msg }
  | some .receiveSockServer, .closed =>
    { run with server := after, held := run.held.filter fun fd => fd ≠ node.fd
               connections := run.connections.filter fun fd => fd ≠ node.fd }
  | some .kickServer, _ =>
    { run with server := after
               current := if input.readCount = 0 ∧ run.current = some node.fd then none
                 else run.current }
  | _, _ => { run with server := after }

/-- A handler runs on a slot that is in use, and the descriptors it is given are new. -/
def FdRun.step (run : FdRun) (event : FdEvent) : Option FdRun :=
  let node := run.server.fdList.readFds event.slot
  let new := granted node event.input
  if node.fd ≠ -1 ∧ new.Nodup ∧ ∀ fd ∈ new, 0 ≤ fd ∧ fd ∉ run.held then
    match (runHandler node event.input).run run.server with
    | .ok _ after => some (run.note node event.input after)
    | .error _ _ => none
  else none

/-- The server once it listens (`vhost_user_open_socket`). -/
def FdRun.initial (listening : Int) (mem : GuestMem) : FdRun where
  server := { fresh mem with
    fdList := addFdList (fresh mem).fdList .fdRead listening .acceptSockServer }
  held := [listening]
  connections := []
  current := none

def fdMachine (listening : Int) : Machine FdRun FdEvent where
  start := fun run => 0 ≤ listening ∧ ∃ mem, run = .initial listening mem
  step := FdRun.step

/-- With a kick descriptor received last, the list holds it and no other, the listening socket and
every open connection. -/
def ListensRight (listening : Int) (run : FdRun) : Prop :=
  ∀ fd, run.current = some fd → (run.server.vring txIdx).kickfd = fd ∧
    (∃ slot, run.server.fdList.readFds slot =
        ⟨(run.server.vring txIdx).kickfd, some .kickServer⟩ ∧
      ∀ other, (run.server.fdList.readFds other).handler = some .kickServer → other = slot) ∧
    (∃ slot, run.server.fdList.readFds slot = ⟨listening, some .acceptSockServer⟩) ∧
    ∀ sock ∈ run.connections, ∃ slot,
      run.server.fdList.readFds slot = ⟨sock, some .receiveSockServer⟩

/-- There is a free slot for every new connection and kick descriptor, and a kick descriptor
arrives only where no other is registered. -/
def RoomFor (run : FdRun) (event : FdEvent) : Prop :=
  let fds := run.server.fdList.readFds
  match (fds event.slot).handler with
  | some .acceptSockServer => event.input.accepted ≠ -1 → ∃ slot, (fds slot).fd = -1
  | some .receiveSockServer => isTxKick event.input.msg = true ∧ event.input.msg.fdNum = 1 →
      (∃ slot, (fds slot).fd = -1) ∧ ∀ slot, (fds slot).handler ≠ some .kickServer
  | _ => True

def FdRun.Registered (listening : Int) (run : FdRun) : Prop :=
  Server.Registered listening run.server.fdList.readFds (run.server.vring txIdx).kickfd run.held
    run.connections run.current

variable {listening : Int}

theorem FdRun.Registered.listensRight {run : FdRun} (registered : run.Registered listening) :
    ListensRight listening run := by
  intro fd counts
  obtain ⟨same, ⟨slot, entry⟩, only⟩ := registered.current fd counts
  refine ⟨same, ⟨slot, by rw [same, entry], fun other kick => ?_⟩, registered.listens.2,
    fun sock member => (registered.connected sock member).2⟩
  refine registered.distinct other slot ?_ (registered.kicks other kick)
  rw [only other kick, entry]

section Handlers

variable {node : FdNode} {input : HandlerInput} {server after : VHostUser}

theorem runHandler_accept (handler : node.handler = some .acceptSockServer)
    (returned : (runHandler node input).run server = .ok () after) :
    after.registry = (addFdList server.fdList .fdRead input.accepted .receiveSockServer,
      (server.vring txIdx).kickfd) := by
  unfold runHandler at returned
  rw [handler] at returned
  cases returned
  rfl

theorem runHandler_receive (handler : node.handler = some .receiveSockServer)
    (returned : (runHandler node input).run server = .ok () after) :
    ∃ middle result, (inMsgServer input.msg input.mmap).run middle = .ok result after ∧
      middle.registry = (if input.recv = .closed then delFdList server.fdList .fdRead node.fd
        else server.fdList, (server.vring txIdx).kickfd) := by
  unfold runHandler at returned
  rw [handler] at returned
  obtain ⟨_, loaded, start, rest⟩ := bind_ok returned
  cases start
  unfold receiveSockServer at rest
  by_cases closed : input.recv = .closed
  · rw [if_pos closed] at rest ⊢
    obtain ⟨_, removed, deleted, dispatch⟩ := bind_ok rest
    cases deleted
    obtain ⟨result, middle, handled, last⟩ := bind_ok dispatch
    cases last
    exact ⟨_, result, handled, rfl⟩
  · rw [if_neg closed] at rest ⊢
    obtain ⟨result, middle, handled, last⟩ := bind_ok rest
    cases last
    exact ⟨_, result, handled, rfl⟩

theorem runHandler_kick (handler : node.handler = some .kickServer)
    (returned : (runHandler node input).run server = .ok () after) :
    after.registry = (if input.readCount = 0 then delFdList server.fdList .fdRead node.fd
      else server.fdList, (server.vring txIdx).kickfd) := by
  unfold runHandler at returned
  rw [handler] at returned
  obtain ⟨_, loaded, start, rest⟩ := bind_ok returned
  cases start
  unfold kickServer at rest
  by_cases negative : input.readCount < 0
  · rw [if_pos negative] at rest
    rw [if_neg (by omega)]
    cases rest
    rfl
  rw [if_neg negative] at rest
  by_cases ended : input.readCount = 0
  · rw [if_pos ended] at rest ⊢
    cases rest
    rfl
  · rw [if_neg ended] at rest ⊢
    have kept : Keeps registry (do let _ ← pollAvailVring txIdx : ServerM Unit) :=
      .bind (pollAvailVring_registry txIdx) fun _ => .pure _
    have same := kept.ok rest
    exact same

end Handlers

section Steps

variable {listening : Int} {run next : FdRun} {event : FdEvent} {after : VHostUser}
  {input : HandlerInput}

theorem FdRun.Registered.accept {accepted : Int} (registered : run.Registered listening)
    (added : after.registry = (addFdList run.server.fdList .fdRead accepted .receiveSockServer,
      (run.server.vring txIdx).kickfd))
    (room : accepted ≠ -1 → ∃ slot, (run.server.fdList.readFds slot).fd = -1)
    (new : accepted ∉ run.held) :
    Server.Registered listening after.fdList.readFds (after.vring txIdx).kickfd
      ((if accepted = -1 then [] else [accepted]) ++ run.held)
      ((if accepted = -1 then [] else [accepted]) ++ run.connections) run.current := by
  obtain ⟨list, kickfd⟩ := Prod.mk.inj added
  rw [list, kickfd]
  by_cases free : ∃ slot, (run.server.fdList.readFds slot).fd = -1
  · obtain ⟨slot, empty, stored⟩ := addFdList_readFds free
    rw [stored]
    exact Server.Registered.accept registered empty new
  · rw [addFdList_full (not_exists.mp free), if_pos (not_not.mp fun live => free (room live))]
    exact registered

theorem FdRun.Registered.message {middle : VHostUser} {msg : VHostUserLocalMsg} {mmap : Mmap}
    {result : Int × VHostUserLocalMsg} {held more connections : List Int} {current : Option Int}
    (registered : Server.Registered listening middle.fdList.readFds
      (middle.vring txIdx).kickfd held connections current)
    (handled : (inMsgServer msg mmap).run middle = .ok result after) (superset : held ⊆ more)
    (valid : -1 ∉ more) (room : isTxKick msg = true ∧ msg.fdNum = 1 →
      (∃ slot, (middle.fdList.readFds slot).fd = -1) ∧
        (∀ slot, (middle.fdList.readFds slot).handler ≠ some .kickServer) ∧
        msg.fds 0 ∉ held ∧ msg.fds 0 ∈ more) :
    Server.Registered listening after.fdList.readFds (after.vring txIdx).kickfd more connections
      (noteKick current msg) := by
  rcases inMsgServer_registry handled with ⟨kick, one, added⟩ | ⟨other, same⟩
  · obtain ⟨free, first, new, member⟩ := room ⟨kick, one⟩
    obtain ⟨list, kickfd⟩ := Prod.mk.inj added
    obtain ⟨slot, empty, stored⟩ := addFdList_readFds free
    have live : msg.fds 0 ≠ -1 := fun minus => valid (minus ▸ member)
    rw [list, kickfd, stored, noteKick, if_pos kick]
    exact (registered.kick empty new live first).weaken
      (List.cons_subset.mpr ⟨member, superset⟩) valid (.inl rfl)
  · obtain ⟨list, kickfd⟩ := Prod.mk.inj same
    rw [list, kickfd, noteKick, if_neg (by simp [other])]
    refine registered.weaken superset valid ?_
    by_cases polled : (isRequest .setVringKick msg &&
        decide (vringIdx (u64.get msg.request) = txIdx)) = true
    · exact .inr (if_pos polled)
    · exact .inl (if_neg polled)

theorem HandlerInput.msg_fds {bytes : List UInt8} {fds : List Int}
    (received : input.recv = .data bytes fds) (one : input.msg.fdNum = 1) :
    fds = [input.msg.fds 0] := by
  have length : fds.length = 1 := by
    rwa [HandlerInput.msg, received] at one
  obtain ⟨fd, rfl⟩ := List.length_eq_one_iff.mp length
  rw [HandlerInput.msg, received]
  rfl

/-- Without a message there are no descriptors, and a kick message fails its assertion. -/
theorem HandlerInput.msg_fdNum (none : ∀ bytes fds, input.recv ≠ .data bytes fds) :
    input.msg.fdNum = 0 := by
  unfold HandlerInput.msg
  cases outcome : input.recv with
  | data bytes fds => exact absurd outcome (none bytes fds)
  | closed | failed => rfl

section Events

variable {slot : Fin fdListSize} {input : HandlerInput} {after : VHostUser}

theorem FdRun.Registered.freed (registered : run.Registered listening)
    (live : (run.server.fdList.readFds slot).fd ≠ -1) :
    (delFdList run.server.fdList .fdRead (run.server.fdList.readFds slot).fd).readFds =
      Function.update run.server.fdList.readFds slot ⟨-1, none⟩ :=
  delFdList_readFds rfl fun other same => (registered.distinct slot other same.symm live).symm

theorem FdRun.Registered.received (registered : run.Registered listening)
    (handler : (run.server.fdList.readFds slot).handler = some .receiveSockServer)
    (live : (run.server.fdList.readFds slot).fd ≠ -1)
    (new : ∀ fd ∈ granted (run.server.fdList.readFds slot) input, 0 ≤ fd ∧ fd ∉ run.held)
    (room : isTxKick input.msg = true ∧ input.msg.fdNum = 1 →
      (∃ slot, (run.server.fdList.readFds slot).fd = -1) ∧
        ∀ slot, (run.server.fdList.readFds slot).handler ≠ some .kickServer)
    (returned : (runHandler (run.server.fdList.readFds slot) input).run run.server = .ok () after) :
    (run.note (run.server.fdList.readFds slot) input after).Registered listening := by
  obtain ⟨middle, result, handled, registry⟩ := runHandler_receive handler returned
  obtain ⟨list, kickfd⟩ := Prod.mk.inj registry
  cases outcome : input.recv with
  | data bytes fds =>
    rw [outcome, if_neg (by simp)] at list
    unfold FdRun.Registered at registered ⊢
    rw [← list, ← kickfd] at registered
    rw [← list] at room
    simp only [granted, handler, outcome] at new
    have valid : -1 ∉ fds ++ run.held := by
      intro member
      rcases List.mem_append.mp member with received | before
      · exact absurd (new _ received).1 (by decide)
      · exact registered.valid before
    have later := FdRun.Registered.message registered handled
      (List.subset_append_right fds run.held) valid (by
        rintro ⟨kick, one⟩
        have single := HandlerInput.msg_fds outcome one
        have member : input.msg.fds 0 ∈ fds := by
          rw [single]
          exact List.mem_cons_self
        obtain ⟨free, first⟩ := room ⟨kick, one⟩
        exact ⟨free, first, (new _ member).2, List.mem_append_left _ member⟩)
    simpa only [FdRun.note, handler, outcome, granted] using later
  | closed =>
    have empty : input.msg.fdNum = 0 := HandlerInput.msg_fdNum (by simp [outcome])
    obtain ⟨listSame, kickfdSame⟩ := Prod.mk.inj (inMsgServer_registry_empty empty handled)
    rw [outcome, if_pos rfl] at list
    have later := registered.disconnect handler
    rw [← registered.freed live, ← list, ← listSame, ← kickfd, ← kickfdSame] at later
    simpa only [FdRun.Registered, FdRun.note, handler, outcome] using later
  | failed =>
    have empty : input.msg.fdNum = 0 := HandlerInput.msg_fdNum (by simp [outcome])
    obtain ⟨listSame, kickfdSame⟩ := Prod.mk.inj (inMsgServer_registry_empty empty handled)
    rw [outcome, if_neg (by simp)] at list
    unfold FdRun.Registered at registered
    rw [← list, ← listSame, ← kickfd, ← kickfdSame] at registered
    simpa only [FdRun.Registered, FdRun.note, handler, outcome] using registered

theorem FdRun.Registered.kicked (registered : run.Registered listening)
    (handler : (run.server.fdList.readFds slot).handler = some .kickServer)
    (live : (run.server.fdList.readFds slot).fd ≠ -1)
    (returned : (runHandler (run.server.fdList.readFds slot) input).run run.server = .ok () after) :
    (run.note (run.server.fdList.readFds slot) input after).Registered listening := by
  obtain ⟨list, kickfd⟩ := Prod.mk.inj (runHandler_kick handler returned)
  by_cases ended : input.readCount = 0
  · have gone : (if input.readCount = 0 ∧ run.current = some (run.server.fdList.readFds slot).fd
        then none else run.current) = none := by
      cases current : run.current with
      | none => simp
      | some fd =>
        -- the invariant leaves only one kick descriptor to end
        have same := (registered.current fd current).2.2 slot handler
        simp [ended, same]
    have later := registered.kickEnds handler
    rw [if_pos ended] at list
    rw [← registered.freed live, ← list, ← kickfd, ← gone] at later
    simpa only [FdRun.Registered, FdRun.note, handler] using later
  · rw [if_neg ended] at list
    unfold FdRun.Registered at registered
    rw [← list, ← kickfd] at registered
    simpa only [FdRun.Registered, FdRun.note, handler, ended, false_and, if_false] using registered

end Events

theorem FdRun.Registered.step (registered : run.Registered listening) (room : RoomFor run event)
    (taken : run.step event = some next) : next.Registered listening := by
  unfold FdRun.step at taken
  dsimp only at taken
  split at taken
  swap
  · cases taken
  rename_i guard
  obtain ⟨live, -, new⟩ := guard
  split at taken
  swap
  · cases taken
  rename_i after returned
  cases taken
  unfold RoomFor at room
  dsimp only at room
  cases handler : (run.server.fdList.readFds event.slot).handler with
  | none =>
    have same : after.registry = run.server.registry := by
      unfold runHandler at returned
      rw [handler] at returned
      cases returned
      rfl
    obtain ⟨list, kickfd⟩ := Prod.mk.inj same
    unfold FdRun.Registered at registered
    rw [← list, ← kickfd] at registered
    simpa only [FdRun.Registered, FdRun.note, handler] using registered
  | some function =>
    cases function with
    | acceptSockServer =>
      simp only [granted, handler] at new
      rw [handler] at room
      have accepted := registered.accept (runHandler_accept handler returned) room (by
        split at new
        next failed =>
          rw [failed]
          exact registered.valid
        · exact (new _ List.mem_cons_self).2)
      simpa only [FdRun.Registered, FdRun.note, handler, granted] using accepted
    | receiveSockServer =>
      rw [handler] at room
      exact registered.received handler live new room returned
    | kickServer => exact registered.kicked handler live returned

end Steps

theorem registered_initial (valid : 0 ≤ listening) (mem : GuestMem) :
    (FdRun.initial listening mem).Registered listening := by
  have live : listening ≠ -1 := by omega
  obtain ⟨slot, -, stored⟩ := @addFdList_readFds (fresh mem).fdList listening
    .acceptSockServer ⟨0, rfl⟩
  have entries : (FdRun.initial listening mem).server.fdList.readFds =
      Function.update (fun _ => ⟨-1, none⟩) slot ⟨listening, some .acceptSockServer⟩ := stored
  have elsewhere : ∀ other, (Function.update (fun _ => (⟨-1, none⟩ : FdNode)) slot
      ⟨listening, some .acceptSockServer⟩ other).fd ≠ -1 → other = slot := by
    intro other used
    by_contra different
    rw [Function.update_of_ne different] at used
    exact used rfl
  have noKick : ∀ other, (Function.update (fun _ => (⟨-1, none⟩ : FdNode)) slot
      ⟨listening, some .acceptSockServer⟩ other).handler ≠ some .kickServer := by
    rw [Function.forall_update_iff _ fun _ (entry : FdNode) => entry.handler ≠ some .kickServer]
    simp
  unfold FdRun.Registered
  rw [entries]
  constructor
  · intro member
    exact live (List.mem_singleton.mp member).symm
  · intro one other same used
    have otherUsed := used
    rw [same] at otherUsed
    rw [elsewhere one used, elsewhere other otherUsed]
  · intro one used
    rw [elsewhere one used, Function.update_self]
    exact List.mem_singleton_self listening
  · exact ⟨live, slot, Function.update_self ..⟩
  · exact List.forall_mem_nil _
  · intro one kick
    exact absurd kick (noKick one)
  · rintro fd ⟨⟩

/-- In every run in which new connections and kick descriptors find a free slot, and a kick
descriptor no other one, the list is right whenever a kick descriptor was received last. -/
theorem fdMachine_listensRight {listening : Int} {run : FdRun}
    (reached : (fdMachine listening).Reached RoomFor run) : ListensRight listening run := by
  have registered : run.Registered listening := by
    refine reached.invariant ?_ ?_
    · rintro state ⟨valid, mem, rfl⟩
      exact registered_initial valid mem
    · intro state event next before room taken
      exact before.step room taken
  exact registered.listensRight

/-! ### Two runs -/

instance (run : FdRun) (event : FdEvent) : Decidable (RoomFor run event) := by
  unfold RoomFor
  dsimp only
  split
  · infer_instance
  · infer_instance
  · infer_instance

def acceptEvent (accepted : Int) : FdEvent :=
  ⟨0, ⟨idleMem, .failed, .zero, fun _ => none, accepted, -1⟩⟩

def kickEvent (kickfd : Int) : FdEvent :=
  ⟨1, ⟨idleMem, .data [12, 0, 0, 0, 1, 0, 0, 0, 8, 0, 0, 0, 1, 0, 0, 0, 0, 0, 0, 0] [kickfd], .zero,
    fun _ => none, -1, -1⟩⟩

def fdSummary (events : List FdEvent) : Option (List Int × List Int × Option Int) :=
  ((fdMachine 3).run events (.initial 3 idleMem)).map fun run =>
    (((List.finRange fdListSize).filter fun slot =>
        (run.server.fdList.readFds slot).handler = some .kickServer).map fun slot =>
          (run.server.fdList.readFds slot).fd,
      run.connections, run.current)

/-- A failed `accept`, a connection and its kick descriptor. -/
theorem fdMachine_listensRight_first :
    ∃ run, (fdMachine 3).Reached RoomFor run ∧ run.current = some 5 ∧ ListensRight 3 run := by
  have ends : fdSummary [acceptEvent 4, acceptEvent (-1), kickEvent 5] =
      some ([5], [4], some 5) := by decide +kernel
  have start : (fdMachine 3).Reached RoomFor (.initial 3 idleMem) :=
    .start ⟨by decide, idleMem, rfl⟩
  obtain ⟨run, reached, summary⟩ := start.evaluate (by decide +kernel) ends
  exact ⟨run, reached, congrArg (·.2.2) summary, fdMachine_listensRight reached⟩

/-- A second kick descriptor: the first one stays in the list. -/
theorem fdMachine_stale_kick :
    ¬ ∀ run, (fdMachine 3).Reached Machine.anyAction run → ListensRight 3 run := by
  intro always
  have ends : fdSummary [acceptEvent 4, kickEvent 5, kickEvent 6] =
      some ([5, 6], [4], some 6) := by decide +kernel
  obtain ⟨run, reached, summary⟩ := Machine.evaluate_any ends ⟨by decide, idleMem, rfl⟩
  simp only [Prod.mk.injEq] at summary
  obtain ⟨kicks, -, current⟩ := summary
  obtain ⟨-, ⟨slot, -, only⟩, -⟩ := always run reached 6 current
  have placed : ∀ fd ∈ [(5 : Int), 6], (run.server.fdList.readFds slot).fd = fd := by
    intro fd member
    rw [← kicks] at member
    obtain ⟨other, listed, same⟩ := List.mem_map.mp member
    rw [← only other (by simpa using (List.mem_filter.mp listed).2), same]
  have five := placed 5 (by simp)
  have six := placed 6 (by simp)
  omega

end VhostUser.Server
