import VhostUser.Lib.Machine
import VhostUser.Qemu.Device
import VhostUser.Server.Effects
import VhostUser.Server.Loop
import VhostUser.Server.TxBatch

/-!
Contract: handing the avail-ring positions over between QEMU and the server.

The machine has QEMU's device, the messages on their way and the server. Its
actions are a start and a stop of the device, the delivery of one message, one
pass of the server over a ring, and writes of the guest. Messages arrive whole
and in order.

The server's answer to `VHOST_USER_GET_VRING_BASE` never reaches QEMU, so a stop
always leaves position zero in the virtqueues. The positions agree as long as
the device is stopped at position zero only and the server leaves the rings
alone from there until it has seen the positions of the next start.
-/

namespace VhostUser.Protocol

open VhostUser.Lib VhostUser.Wire VhostUser.Qemu VhostUser.Server

structure SentMsg where
  call : VhostCall
  frame : Frame
  built : ∃ blocks stale, vhostUserCall 0 blocks stale call = .sent frame

/-- The messages of a list of calls. The first region that does not fit the
table corrupts QEMU's stack. -/
def sendCalls (blocks : List RAMBlock) (stale : Nat → ByteImage) :
    List VhostCall → Option (List SentMsg)
  | [] => some []
  | call :: rest =>
    match built : vhostUserCall 0 blocks (stale rest.length) call with
    | .sent frame => (sendCalls blocks stale rest).map (⟨call, frame, _, _, built⟩ :: ·)
    | .refused => sendCalls blocks stale rest
    | .overrun => none

structure World where
  device : Device
  channel : List SentMsg
  server : VHostUser

inductive Action where
  | start (config : StartConfig) (stale : Nat → ByteImage)
  | stop (stale : Nat → ByteImage)
  | deliver (recvBuffer : VHostUserLocalMsg) (mmap : Mmap)
  | drain (index : Fin 2)
  | guest (mem : GuestMem)

def returned {α : Type} : EStateM.Result Fault VHostUser α → Option VHostUser
  | .ok _ after => some after
  | .error _ _ => none

variable {after server : VHostUser} {recvBuffer : VHostUserLocalMsg} {sent : SentMsg}
  {world : World} {blocks : List RAMBlock} {calls : List VhostCall} {messages rest : List SentMsg}
  {stale : Nat → ByteImage} {index : Fin 2}

theorem returned_eq_some {α : Type} {result : EStateM.Result Fault VHostUser α}
    (ended : returned result = some after) : ∃ value, result = .ok value after := by
  cases result with
  | ok value state =>
    cases ended
    exact ⟨value, rfl⟩
  | error => simp [returned] at ended

def World.issue (world : World) (blocks : List RAMBlock) (stale : Nat → ByteImage)
    (outcome : List VhostCall × Device) : Option World :=
  (sendCalls blocks stale outcome.1).map fun messages =>
    { world with device := outcome.2, channel := world.channel ++ messages }

/-- The server receives `sent` into its stale buffer and handles it. -/
def receiveMsg (sent : SentMsg) (recvBuffer : VHostUserLocalMsg) : VHostUserLocalMsg :=
  vhostUserReceive (.data sent.frame.data sent.frame.rights) recvBuffer

def World.step (world : World) : Action → Option World
  | .start config stale => world.issue config.blocks stale (vhostDevStart config world.device)
  | .stop stale => world.issue [] stale (vhostDevStop world.device)
  | .deliver recvBuffer mmap =>
    match world.channel with
    | [] => none
    | sent :: rest =>
      (returned ((inMsgServer (receiveMsg sent recvBuffer) mmap).run world.server)).map
        fun after => { world with channel := rest, server := after }
  | .drain index =>
    (returned ((pollAvailVring index).run world.server)).map fun after =>
      { world with server := after }
  | .guest mem => some { world with server := { world.server with mem := mem } }

def World.initial (mem : GuestMem) : World :=
  ⟨⟨false, fun _ => 0⟩, [], VHostUser.fresh mem⟩

def handover : Machine World Action where
  start := fun world => ∃ mem, world = World.initial mem
  step := World.step

/-! ### Exact handover -/

def BasePending (world : World) : Prop :=
  ∃ sent ∈ world.channel, vhostUserRequestTranslate sent.call = .setVringBase

/-- The avail entries of every ring were processed in order, each once, and the server goes on with
the next one. -/
def ExactlyOnce (server : VHostUser) : Prop :=
  ∀ index, ∃ count,
    processedPositions index server.trace = (List.range count).map UInt16.ofNat ∧
      (server.vring index).lastAvailIdx = UInt16.ofNat count

/-- From a stop until the server has seen the next start, both sides have the same positions; and
no avail entry is skipped or repeated. -/
structure HandedOver (world : World) : Prop where
  agree : world.device.started = false ∨ BasePending world →
    ∀ index, world.device.lastAvailIdx index = (world.server.vring index).lastAvailIdx
  once : ExactlyOnce world.server

/-- The device is stopped at position zero only and not started twice, and a ring is left alone
while its position is handed over. -/
def Orderly (world : World) : Action → Prop
  | .start _ _ => world.device.started = false
  | .stop _ => ∀ index, (world.server.vring index).lastAvailIdx = 0
  | .drain index => (world.server.vring index).desc = 0 ∨ pendingCount world.server index = 0 ∨
      (world.device.started = true ∧ ¬ BasePending world)
  | .deliver _ _ | .guest _ => True

instance (world : World) : Decidable (BasePending world) :=
  inferInstanceAs (Decidable (∃ sent ∈ world.channel, _))

instance (world : World) (action : Action) : Decidable (Orderly world action) := by
  cases action <;> unfold Orderly <;> infer_instance

/-! ### Messages -/

theorem sendCalls_subset (built : sendCalls blocks stale calls = some messages) :
    ∀ sent ∈ messages, sent.call ∈ calls := by
  induction calls generalizing messages with
  | nil =>
    cases built
    simp
  | cons call rest ih =>
    unfold sendCalls at built
    split at built
    · obtain ⟨later, builtLater, rfl⟩ := Option.map_eq_some_iff.mp built
      intro sent member
      rcases List.mem_cons.mp member with rfl | member
      · exact List.mem_cons_self
      · exact List.mem_cons_of_mem _ (ih builtLater sent member)
    · intro sent member
      exact List.mem_cons_of_mem _ (ih built sent member)
    · simp at built

/-- The server handles a message as the request it was sent as. -/
theorem SentMsg.effect {mmap : Mmap} {result : Int × VHostUserLocalMsg}
    (handled : (inMsgServer (receiveMsg sent recvBuffer) mmap).run server = .ok result after) :
    MsgEffect (receiveMsg sent recvBuffer) server (vhostUserRequestTranslate sent.call) after := by
  obtain ⟨blocks, stale, built⟩ := sent.built
  obtain ⟨payload, wellFormed, frameEq⟩ := vhostUserCall_sent built
  obtain ⟨request, named, effect⟩ := inMsgServer_effect handled
  have code : Wire.request.get (receiveMsg sent recvBuffer).request =
      (vhostUserRequestTranslate sent.call).code := by
    rw [receiveMsg, frameEq]
    exact frameOf_request wellFormed.apart
  have same : request = vhostUserRequestTranslate sent.call := by
    have decoded := congrArg Request.ofCode? (named.symm.trans code)
    simpa only [Request.ofCode?_code, Option.some.injEq] using decoded
  rw [← same]
  exact effect

theorem SentMsg.base_num {state : VhostVringState} (base : sent.call = .setVringBase state)
    (recvBuffer : VHostUserLocalMsg) :
    stateNum.get (receiveMsg sent recvBuffer).request = state.num.toNat := by
  obtain ⟨blocks, stale, built⟩ := sent.built
  rw [base] at built
  have frameEq : sent.frame = frameOf .setVringBase (statePayload state) stale :=
    (CallResult.sent.inj built).symm
  rw [receiveMsg, frameEq]
  exact frameOf_get (statePayload_wellFormed state).apart (by simp [statePayload])
    (UInt32.toNat_lt _) (by simp [stateNum, statePayload, hdrSize])

/-! ### The invariant -/

/-- Everything QEMU knows or announces is position zero; so is the server when the two have to
agree. -/
structure AtZero (world : World) : Prop where
  device : ∀ index, world.device.lastAvailIdx index = 0
  announced : BasesZero (world.channel.map SentMsg.call)
  server : world.device.started = false ∨ BasePending world →
    ∀ index, (world.server.vring index).lastAvailIdx = 0
  once : ExactlyOnce world.server

theorem AtZero.handedOver (zero : AtZero world) : HandedOver world where
  agree := fun waiting index => (zero.device index).trans (zero.server waiting index).symm
  once := zero.once

theorem atZero_initial (mem : GuestMem) : AtZero (World.initial mem) where
  device := fun _ => rfl
  announced := by simp [World.initial, BasesZero]
  server := fun _ _ => rfl
  once := fun _ => ⟨0, rfl, rfl⟩

theorem ExactlyOnce.congr (once : ExactlyOnce server) (trace : after.trace = server.trace)
    (positions : ∀ index, (after.vring index).lastAvailIdx = (server.vring index).lastAvailIdx) :
    ExactlyOnce after := by
  intro index
  obtain ⟨count, processed, last⟩ := once index
  exact ⟨count, by rw [trace, processed], by rw [positions, last]⟩

theorem ExactlyOnce.drain (once : ExactlyOnce server) (drains : Drains index server after) :
    ExactlyOnce after := by
  intro other
  obtain ⟨count, processed, last⟩ := once other
  by_cases same : other = index
  · subst same
    refine ⟨count + pendingCount server other, ?_, ?_⟩
    · rw [drains.positions, processed, List.range_add, List.map_append, List.map_map, last]
      congr 1
      refine List.map_congr_left fun step _ => ?_
      simp
    · rw [drains.rings, Function.update_self, last]
      simp
  · refine ⟨count, ?_, ?_⟩
    · rw [drains.positionsOther other same, processed]
    · rw [drains.rings, Function.update_of_ne same, last]

/-- Messages of a start or a stop leave the server where it is. -/
theorem AtZero.send {device : Device} (zero : AtZero world)
    (deviceZero : ∀ index, device.lastAvailIdx index = 0) (callsZero : BasesZero calls)
    (serverZero : ∀ index, (world.server.vring index).lastAvailIdx = 0)
    (built : sendCalls blocks stale calls = some messages) :
    AtZero { world with device := device, channel := world.channel ++ messages } where
  device := deviceZero
  announced := by
    rw [List.map_append]
    refine basesZero_append zero.announced fun state member => ?_
    obtain ⟨sent, sentMember, called⟩ := List.mem_map.mp member
    refine callsZero state ?_
    rw [← called]
    exact sendCalls_subset built sent sentMember
  server := fun _ => serverZero
  once := zero.once

theorem AtZero.deliver_positions (zero : AtZero world) (queued : world.channel = sent :: rest)
    (effect : MsgEffect (receiveMsg sent recvBuffer) world.server
      (vhostUserRequestTranslate sent.call) after) (index : Fin 2) :
    (after.vring index).lastAvailIdx = (world.server.vring index).lastAvailIdx := by
  by_cases base : vhostUserRequestTranslate sent.call = .setVringBase
  · obtain ⟨state, called⟩ : ∃ state, sent.call = .setVringBase state := by
      cases call : sent.call <;> simp [call, vhostUserRequestTranslate] at base
      exact ⟨_, rfl⟩
    have member : sent ∈ world.channel := by simp [queued]
    have announced := zero.announced state (called ▸ List.mem_map.mpr ⟨sent, member, rfl⟩)
    have serverZero := zero.server (.inr ⟨sent, member, base⟩)
    have num := SentMsg.base_num called recvBuffer
    rw [announced.1] at num
    rw [called] at effect
    cases effect with
    | base idx named =>
      refine VHostUser.setRing_view Vring.lastAvailIdx ?_ index
      rw [serverZero idx, num]
      rfl
    | unchanged => rfl
  · exact effect.lastAvailIdx base index

theorem AtZero.deliver (zero : AtZero world) (queued : world.channel = sent :: rest)
    (effect : MsgEffect (receiveMsg sent recvBuffer) world.server
      (vhostUserRequestTranslate sent.call) after) :
    AtZero { world with channel := rest, server := after } := by
  have positions := zero.deliver_positions queued effect
  refine ⟨zero.device, fun state member => zero.announced state ?_, fun waiting index => ?_,
    zero.once.congr effect.trace positions⟩
  · rw [queued]
    exact List.mem_cons_of_mem _ member
  rw [positions index]
  refine zero.server (waiting.imp_right ?_) index
  rintro ⟨later, member, base⟩
  exact ⟨later, by simp [queued, show later ∈ rest from member], base⟩

theorem AtZero.drain (zero : AtZero world) (drains : Drains index world.server after)
    (free : pendingCount world.server index = 0 ∨
      (world.device.started = true ∧ ¬ BasePending world)) :
    AtZero { world with server := after } := by
  refine ⟨zero.device, zero.announced, fun waiting other => ?_, zero.once.drain drains⟩
  have serverZero := zero.server waiting
  rcases free with nothing | ⟨started, seen⟩
  · change (after.vring other).lastAvailIdx = 0
    rw [drains.rings, nothing]
    by_cases same : other = index
    · subst same
      simp [serverZero]
    · simp [same, serverZero]
  · rcases waiting with stopped | pending
    · exact absurd (started.symm.trans stopped) (by decide)
    · exact absurd pending seen

theorem AtZero.step {world next : World} {action : Action} (zero : AtZero world)
    (orderly : Orderly world action) (taken : world.step action = some next) : AtZero next := by
  cases action with
  | start config stale =>
    obtain ⟨messages, built, rfl⟩ := Option.map_eq_some_iff.mp taken
    obtain ⟨callsZero, deviceZero⟩ := @vhostDevStart_zero config _ zero.device
    exact zero.send deviceZero callsZero (zero.server (.inl orderly)) built
  | stop stale =>
    simp only [World.step, World.issue] at taken
    obtain ⟨messages, built, rfl⟩ := Option.map_eq_some_iff.mp taken
    refine zero.send (vhostDevStop_zero world.device) ?_ orderly built
    simp [BasesZero, vhostDevStop, vhostVirtqueueStop]
  | deliver recvBuffer mmap =>
    cases queued : world.channel with
    | nil => simp [World.step, queued] at taken
    | cons sent rest =>
      simp only [World.step, queued] at taken
      obtain ⟨after, ran, rfl⟩ := Option.map_eq_some_iff.mp taken
      obtain ⟨result, handled⟩ := returned_eq_some ran
      exact zero.deliver queued (SentMsg.effect handled)
  | drain index =>
    obtain ⟨after, ran, rfl⟩ := Option.map_eq_some_iff.mp taken
    obtain ⟨count, polled⟩ := returned_eq_some ran
    rw [pollAvailVring_eq] at polled
    split at polled
    · cases polled
      exact zero
    next set => exact zero.drain (processAvailVring_drains polled) (orderly.resolve_left set)
  | guest mem =>
    cases taken
    exact ⟨zero.device, zero.announced, zero.server, zero.once.congr rfl fun _ => rfl⟩

/-- Runs in which the device is stopped at position zero only hand the
positions over exactly. -/
theorem orderly_handedOver {world : World} (reached : handover.Reached Orderly world) :
    HandedOver world := by
  refine AtZero.handedOver (reached.invariant ?_ fun state action next zero => zero.step)
  rintro state ⟨mem, rfl⟩
  exact atZero_initial mem

/-! ### Two runs -/

/-- Every address is mapped, and every ring has `published` entries with the
descriptor of a frame. -/
def busyMem (published : UInt16) : GuestMem where
  desc := fun _ _ => ⟨0x40, 74, 0, 0⟩
  avail := fun _ => ⟨published, fun _ => 0⟩
  used := fun _ => ⟨0, fun _ => ⟨0, 0⟩⟩
  byte := fun _ => some 0

/-- A device with one file-backed block that holds both rings. -/
def smallConfig : StartConfig where
  ackedFeatures := 0
  logEnabled := false
  logWord := 0
  blocks := [⟨0x10000, 0, 0x10000, 5⟩]
  queue := fun idx => ⟨1, some ⟨0x11000, 0x12000, 0x13000, 0x3000⟩, 7 + idx⟩

def cleanStale : Nat → ByteImage := fun _ _ => 0

def deliverNext : Action := .deliver .zero fun _ => some 0x100000

def startRun : List Action := .start smallConfig cleanStale :: List.replicate 10 deliverNext

def trafficRun : List Action := [.guest (busyMem 1), .drain txIdx]

def restartRun : List Action :=
  startRun ++ [.stop cleanStale, deliverNext, deliverNext] ++ startRun ++ trafficRun

def endPositions (actions : List Action) : Option (Bool × UInt16 × UInt16) :=
  (handover.run actions (World.initial (busyMem 0))).map fun world =>
    (world.device.started, world.device.lastAvailIdx txIdx, (world.server.vring txIdx).lastAvailIdx)

theorem orderly_handedOver_restart :
    ∃ world, handover.Reached Orderly world ∧ HandedOver world ∧
      (world.server.vring txIdx).lastAvailIdx = 1 := by
  have ends : endPositions restartRun = some (true, 0, 1) := by decide +kernel
  have permitted : handover.RunAllowed Orderly restartRun (World.initial (busyMem 0)) := by
    decide +kernel
  have start : handover.Reached Orderly (World.initial (busyMem 0)) := .start ⟨_, rfl⟩
  obtain ⟨world, reached, positions⟩ := start.evaluate permitted ends
  exact ⟨world, reached, orderly_handedOver reached, congrArg (·.2.2) positions⟩

/-- A stop after one transmitted frame leaves QEMU at position zero and the server at one. -/
theorem handover_fails_after_traffic :
    ¬ ∀ world, handover.Reached Machine.anyAction world → HandedOver world := by
  intro exact
  have ends : endPositions (startRun ++ trafficRun ++ [.stop cleanStale]) = some (false, 0, 1) := by
    decide +kernel
  obtain ⟨world, reached, positions⟩ := Machine.evaluate_any ends ⟨_, rfl⟩
  simp only [Prod.mk.injEq] at positions
  obtain ⟨stopped, qemu, server⟩ := positions
  have agree := (exact world reached).agree (.inl stopped) txIdx
  rw [qemu, server] at agree
  exact absurd agree (by decide)

end VhostUser.Protocol
