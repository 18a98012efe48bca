import VhostUser.Lib.Fallible
import VhostUser.Lib.Machine

/-!
Contract: the connection of a vhost-user netdev, its link and the vhost device behind
it (`net/vhost-user.c`, the start and stop paths of `vhost_net.c`, `vhost.c` and
`virtio-net.c`, and the error conventions of `vhost_user_call`).

Only what depends on the connection is kept: whether `dev->control` is open, which
requests are sent, and what their callers do with the results. Which sends fail, and
whether the server accepts a connection, are inputs of every action. A failed request
returns `-errno`, and `errno` is set. The NIC is a virtio-net device with one pair of
queues.

Owns: at which requests a send may fail, so that the link goes down and comes back as
it should and no assertion fails on the way.

Does not own: the payload of the requests (`Backend`), rescheduling the timer
(`NetTimer`).
-/

namespace VhostUser.Qemu.Reconnect

open VhostUser.Lib

inductive Site where
  /-- `vhost_user_echo`. -/
  | echo
  /-- The requests of `vhost_dev_init`. -/
  | setOwner
  | getFeatures
  | setVringCall (queue : Nat)
  /-- The requests of `vhost_dev_start`; `vhost_dev_log_resize` has the last one too. -/
  | setFeatures
  | setMemTable
  | setVringNum (queue : Nat)
  | setVringBase (queue : Nat)
  | setVringAddr (queue : Nat)
  | setVringKick (queue : Nat)
  | setLogBase
  /-- `VHOST_GET_VRING_BASE` when `vhost_dev_start` undoes what it did. -/
  | rollback (queue : Nat)
  /-- `vhost_virtqueue_mask`. -/
  | mask (queue : Nat)
  /-- `vhost_net_stop_one`. -/
  | netSetBackend (queue : Nat)
  /-- `VHOST_GET_VRING_BASE` in `vhost_dev_stop`. -/
  | getVringBase (queue : Nat)
  /-- `VHOST_SET_MEM_TABLE` in `vhost_commit`. -/
  | commit
deriving DecidableEq, Repr

/-- The assertions of `vhost_net_stop_one` and `vhost_virtqueue_stop` on the way down, and those
of other requests. -/
inductive Abort where
  | wayDown
  | request
deriving DecidableEq, Repr

/-- The control socket is open, and a send on it failed since the last tick. -/
structure Conn where
  control : Bool
  failed : Bool
deriving DecidableEq, Repr

/-- The server, the sends that fail, the guest's rings and the hooks of the transport, with the
queues that `set_guest_notifiers` masks. -/
structure Input where
  connect : Bool
  fails : Site → Bool
  ramBacked : Bool
  mapped : Nat → Bool
  logEnabled : Bool
  hostNotifiers : Bool
  guestNotifiers : Bool
  vectors : List Nat

/-- The netdev (`VhostUserState`), its vhost device and the NIC (`VirtIONet`). -/
structure Netdev where
  vhostNet : Bool
  conn : Conn
  devStarted : Bool
  linkDown : Bool
  peerLinkDown : Bool
  linkUp : Bool
  driverOk : Bool
  vmRunning : Bool
  vhostStarted : Bool
deriving DecidableEq, Repr

/-! ### Requests -/

/-- `vhost_user_call`: whether it returns zero. A failed send closes the socket and
returns zero too. -/
def vhostUserCall (fails : Site → Bool) (site : Site) (conn : Conn) : Bool × Conn :=
  if !conn.control then (false, conn)
  else if fails site then (true, ⟨false, true⟩)
  else (true, conn)

def vhostUserEcho (fails : Site → Bool) (conn : Conn) : Bool × Conn :=
  if !conn.control then (false, conn)
  else if fails .echo then (false, { conn with failed := true })
  else (true, conn)

def vhostUserStatus (fails : Site → Bool) (conn : Conn) : Bool × Conn :=
  let conn := (vhostUserEcho fails conn).2
  (conn.control, conn)

/-- Requests of which the first that fails ends the sequence. -/
def tryCalls (fails : Site → Bool) : List Site → Conn → Bool × Conn
  | [], conn => (true, conn)
  | site :: rest, conn =>
    let call := vhostUserCall fails site conn
    if call.1 then tryCalls fails rest call.2 else call

def assertCalls (abort : Abort) (fails : Site → Bool) : List Site → Conn → Except Abort Conn
  | [], conn => .ok conn
  | site :: rest, conn =>
    let call := vhostUserCall fails site conn
    if call.1 then assertCalls abort fails rest call.2 else .error abort

/-! ### Connecting -/

def vhostNetInit (input : Input) (conn : Conn) : Bool × Conn :=
  if !input.connect then (false, { conn with control := false })
  else
    let echo := vhostUserEcho input.fails { conn with control := true }
    if !echo.1 then (false, { echo.2 with control := false })
    else
      let requests := tryCalls input.fails
        [.setOwner, .getFeatures, .setVringCall 0, .setVringCall 1] echo.2
      if requests.1 then requests else (false, { requests.2 with control := false })

/-! ### Starting and stopping the device -/

def vhostVirtqueueStart (input : Input) (queue : Nat) (conn : Conn) : Bool × Conn :=
  let base := tryCalls input.fails [.setVringNum queue, .setVringBase queue] conn
  if !base.1 then base
  else if !input.mapped queue then (false, base.2)
  else tryCalls input.fails [.setVringAddr queue, .setVringKick queue] base.2

/-- `vhost_virtqueue_stop` for the queues that were started, the last one first. -/
def rollBack (input : Input) (started : List Nat) (conn : Conn) : Except Abort (Bool × Conn) :=
  (assertCalls .wayDown input.fails (started.map .rollback) conn).map fun conn => (false, conn)

/-- The loop of `vhost_dev_start` over the queues, and the log setup behind it. -/
def startQueues (input : Input) : List Nat → List Nat → Conn → Except Abort (Bool × Conn)
  | [], started, conn =>
    if !input.logEnabled then .ok (true, conn)
    else
      let log := vhostUserCall input.fails .setLogBase conn
      if log.1 then .ok log else rollBack input started log.2
  | queue :: rest, started, conn =>
    let start := vhostVirtqueueStart input queue conn
    if start.1 then startQueues input rest (queue :: started) start.2
    else rollBack input started start.2

/-- `vhost_dev_start`. Without RAM in a file there is no table to send. -/
def vhostDevStart (input : Input) (conn : Conn) : Except Abort (Bool × Conn) :=
  let features := vhostUserCall input.fails .setFeatures conn
  if !features.1 then .ok features
  else if !input.ramBacked then .ok (false, features.2)
  else
    let table := vhostUserCall input.fails .setMemTable features.2
    if !table.1 then .ok table else startQueues input [0, 1] [] table.2

def vhostNetStartOne (input : Input) (state : Netdev) : Except Abort (Bool × Netdev) :=
  if state.devStarted then .ok (true, state)
  else if !input.hostNotifiers then .ok (false, state)
  else (vhostDevStart input state.conn).map fun start =>
    (start.1, { state with conn := start.2, devStarted := start.1 })

def vhostNetStopOne (input : Input) (state : Netdev) : Except Abort Netdev :=
  if !state.devStarted then .ok state
  else (assertCalls .wayDown input.fails
    [.netSetBackend 0, .netSetBackend 1, .getVringBase 0, .getVringBase 1] state.conn).map
      fun conn => { state with conn, devStarted := false }

/-- `set_guest_notifiers`: the queues in use are masked or unmasked. -/
def setGuestNotifiers (input : Input) (state : Netdev) : Except Abort Netdev :=
  (assertCalls .request input.fails (input.vectors.map .mask) state.conn).map fun conn =>
    { state with conn }

def bindNotifiers (input : Input) (state : Netdev) : Except Abort (Bool × Netdev) := do
  let bound ← setGuestNotifiers input state
  if input.guestNotifiers then .ok (true, bound)
  else (vhostNetStopOne input bound).map fun stopped => (false, stopped)

def vhostNetStart (input : Input) (state : Netdev) : Except Abort (Bool × Netdev) := do
  let started ← vhostNetStartOne input state
  if started.1 then bindNotifiers input started.2 else .ok started

def vhostNetStop (input : Input) (state : Netdev) : Except Abort Netdev := do
  let unbound ← setGuestNotifiers input state
  vhostNetStopOne input unbound

/-! ### The NIC and the timer -/

def virtioNetStarted (state : Netdev) (driverOk : Bool) : Bool :=
  driverOk && state.linkUp && state.vmRunning

/-- `virtio_net_vhost_status`. The device is forced, so `vhost_net_query` is true. -/
def virtioNetVhostStatus (input : Input) (driverOk : Bool) (state : Netdev) : Except Abort Netdev :=
  if !state.vhostNet then .ok state
  else if state.vhostStarted = (virtioNetStarted state driverOk && !state.linkDown) then .ok state
  else if !state.vhostStarted then
    (vhostNetStart input { state with vhostStarted := true }).map fun start =>
      { start.2 with vhostStarted := start.1 }
  else
    (vhostNetStop input state).map fun stopped => { stopped with vhostStarted := false }

def virtioNetSetLinkStatus (input : Input) (state : Netdev) : Except Abort Netdev :=
  virtioNetVhostStatus input state.driverOk { state with linkUp := !state.peerLinkDown }

def vhostUserStop (state : Netdev) : Netdev :=
  { state with
    vhostNet := false
    conn := { state.conn with control := false }
    devStarted := false }

def vhostUserStart (input : Input) (state : Netdev) : Netdev :=
  let init := vhostNetInit input state.conn
  { state with vhostNet := init.1, conn := init.2, devStarted := false }

/-- The first part of `vhost_user_timer_handler`: `link_down`, and what finding it out
did. -/
def checkLink (input : Input) (state : Netdev) : Bool × Netdev :=
  if state.vhostNet then
    if state.linkDown then (true, state)
    else
      let status := vhostUserStatus input.fails state.conn
      (!status.1, { state with conn := status.2 })
  else
    let started := vhostUserStart input state
    (!started.vhostNet, started)

def applyLink (input : Input) (linkDown : Bool) (state : Netdev) : Except Abort Netdev :=
  if linkDown = state.linkDown then .ok state
  else (virtioNetSetLinkStatus input { state with linkDown, peerLinkDown := linkDown }).map
    fun state => if linkDown then vhostUserStop state else state

/-- `vhost_user_timer_handler`. The record of failed sends starts anew. -/
def vhostUserTimerHandler (input : Input) (state : Netdev) : Except Abort Netdev :=
  let checked := checkLink input { state with conn := { state.conn with failed := false } }
  applyLink input checked.1 checked.2

/-- `net_vhost_user_init`, and the NIC that becomes the peer. -/
def netVhostUserInit (input : Input) : Netdev :=
  vhostUserStart input
    { vhostNet := false, conn := ⟨false, false⟩, devStarted := false, linkDown := false
      peerLinkDown := false, linkUp := true, driverOk := false, vmRunning := false
      vhostStarted := false }

/-- `virtio_net_set_status`, when the guest writes the status or the machine is paused or
continued. -/
def setStatus (driverOk vmRunning : Bool) (input : Input) (state : Netdev) : Except Abort Netdev :=
  (virtioNetVhostStatus input driverOk { state with vmRunning }).map fun state =>
    { state with driverOk }

/-- The requests of a started device when a queue is masked or a memory transaction is
committed. -/
def request (sites : List Site) (input : Input) (state : Netdev) : Except Abort Netdev :=
  if !state.devStarted then .ok state
  else (assertCalls .request input.fails sites state.conn).map fun conn => { state with conn }

/-- What the size of the log must do for the new table. -/
inductive LogResize where
  | keep
  | grow
  | shrink
deriving DecidableEq, Repr

/-- A log that grows is sent before the table, and one that shrinks behind it. -/
def commitSites (input : Input) (resize : LogResize) : List Site :=
  (if input.logEnabled && resize = .grow then [.setLogBase] else []) ++
    .commit :: if input.logEnabled && resize = .shrink then [.setLogBase] else []

/-- `vhost_commit`, for a table that changed. A started device asserts that its rings are mapped
as they were; without RAM in a file nothing is sent. -/
def vhostCommit (ringsKept : Bool) (resize : LogResize) (input : Input) (state : Netdev) :
    Except Abort Netdev :=
  if state.devStarted && !(ringsKept && input.ramBacked) then .error .request
  else request (commitSites input resize) input state

/-! ### The machine -/

inductive Action where
  | init (input : Input)
  | tick (input : Input)
  | setStatus (driverOk vmRunning : Bool) (input : Input)
  | mask (queue : Nat) (input : Input)
  | commit (ringsKept : Bool) (resize : LogResize) (input : Input)

def netdevStep (state : Netdev) : Action → Except Abort Netdev
  | .init _ => .ok state
  | .tick input => vhostUserTimerHandler input state
  | .setStatus driverOk vmRunning input => setStatus driverOk vmRunning input state
  | .mask queue input => request [.mask queue] input state
  | .commit ringsKept resize input => vhostCommit ringsKept resize input state

def reconnectMachine : Machine (Option Netdev) Action where
  start state := state = none
  step
    | none, .init input => some (some (netVhostUserInit input))
    | none, _ => some none
    | some state, action => (netdevStep state action).toOption.map some

end VhostUser.Qemu.Reconnect
