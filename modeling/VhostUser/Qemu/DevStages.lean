import VhostUser.Lib.Staged
import VhostUser.Qemu.VhostLog

/-!
Contract: initialising and starting a vhost device with all the ways in which that can fail
(`vhost_virtqueue_init`, `vhost_dev_init`, `vhost_virtqueue_start`, `vhost_virtqueue_stop` and
`vhost_dev_start` in `vhost.c`).

Each of these functions is a sequence of steps with a chain of labels at its end: a step that fails
jumps to the label behind which the steps before it are undone, the latest first. The answers of
the backend, of `cpu_physical_memory_map` and of `event_notifier_init` are parameters, for every
place where they are asked for. An answer of the backend comes with the value that `errno` has when
the code reads it; error numbers are positive, and zero is what a program starts with. What happens
is kept as a list of events. `abort` ends the process there.

A queue is numbered from `vq_index` on.

Owns: the events, the result and the device that each of the functions leaves.

Does not own: the positions of the queues (`Device`), the memory listener.
-/

namespace VhostUser.Qemu.DevStages

open VhostUser.Lib.Staged VhostUser.Qemu.VhostLog

/-- What `vhost_call` returns, and `errno` when it is read. -/
structure CallReply where
  ret : Int
  errno : Nat
deriving DecidableEq, Repr

def CallReply.negErrno (reply : CallReply) : Int := -(reply.errno : Int)

/-- What `cpu_physical_memory_map` returns, with the length it stores. -/
structure MapReply where
  pointer : UInt64
  length : UInt64
deriving DecidableEq, Repr

inductive RingPart where
  | desc
  | avail
  | used
  | ring
deriving DecidableEq, Repr

inductive DeviceEvent where
  | call (call : VhostCall) (reply : CallReply)
  | map (queue : Nat) (part : RingPart) (reply : MapReply)
  | unmap (queue : Nat) (part : RingPart)
  | notifierInit (queue : Nat)
  | notifierCleanup (queue : Nat)
  | backendCleanup
  | abort
deriving DecidableEq, Repr

def enomem : Int := 12

section Stages

variable {σ : Type}

/-- A call after which the code goes to its clean-up with `-errno` if `failed`. -/
def callStage (call : VhostCall) (reply : CallReply) (failed : Bool) (sets : σ → σ) :
    Stage σ DeviceEvent where
  does := [.call call reply]
  sets := sets
  fails := if failed then some reply.negErrno else none
  undoes := []

/-- A call of `cpu_physical_memory_map` for `size` bytes. -/
def mapStage (queue : Nat) (part : RingPart) (size : UInt64) (reply : MapReply) (sets : σ → σ) :
    Stage σ DeviceEvent where
  does := [.map queue part reply]
  sets := sets
  fails := if reply.pointer = 0 ∨ reply.length ≠ size then some (-enomem) else none
  undoes := [.unmap queue part]

section Fields

variable (call : VhostCall) (reply : CallReply) (failed : Bool) (sets : σ → σ)

@[simp] theorem callStage_does : (callStage call reply failed sets).does = [.call call reply] := rfl

@[simp] theorem callStage_sets : (callStage call reply failed sets).sets = sets := rfl

@[simp] theorem callStage_fails : (callStage call reply failed sets).fails =
    if failed then some reply.negErrno else none := rfl

@[simp] theorem callStage_undoes : (callStage call reply failed sets).undoes = [] := rfl

end Fields

section Fields

variable (queue : Nat) (part : RingPart) (size : UInt64) (reply : MapReply) (sets : σ → σ)

@[simp] theorem mapStage_does :
    (mapStage queue part size reply sets).does = [.map queue part reply] := rfl

@[simp] theorem mapStage_undoes :
    (mapStage queue part size reply sets).undoes = [.unmap queue part] := rfl

end Fields

end Stages

/-! ### Queues -/

/-- What a queue meets in `vhost_virtqueue_start` and `vhost_virtqueue_stop`. `stopUnmaps` is the
assertion of `address_space_unmap` in the second. -/
structure StartAnswers where
  num : UInt32
  lastAvailIdx : UInt16
  usedPhys : UInt64
  hostNotifier : Int
  size : RingPart → UInt64
  setVringNum : CallReply
  setVringBase : CallReply
  map : RingPart → MapReply
  setVringAddr : CallReply
  setVringKick : CallReply
  getVringBase : CallReply
  stopUnmaps : Bool

def vhostVirtqueueSetAddr (reply : CallReply) : Int :=
  if reply.ret < 0 then reply.negErrno else 0

/-- The argument of `VHOST_SET_VRING_ADDR`; `VHOST_VRING_F_LOG` is 0. -/
def StartAnswers.addr (answers : StartAnswers) (queue : Nat) (enableLog : Bool) :
    VhostVringAddr where
  index := .ofNat queue
  flags := if enableLog then 1 else 0
  descUserAddr := (answers.map .desc).pointer
  usedUserAddr := (answers.map .used).pointer
  availUserAddr := (answers.map .avail).pointer
  logGuestAddr := answers.usedPhys

/-- The steps of `vhost_virtqueue_start`, which changes `used_phys` and `used_size`. -/
def queueStages (enableLog : Bool) (queue : Nat) (answers : StartAnswers) :
    List (Stage VhostVirtqueue DeviceEvent) :=
  let mapPart := fun part => mapStage queue part (answers.size part) (answers.map part)
  [callStage (.setVringNum ⟨.ofNat queue, answers.num⟩) answers.setVringNum
      (answers.setVringNum.ret ≠ 0) id,
    callStage (.setVringBase ⟨.ofNat queue, answers.lastAvailIdx.toUInt32⟩) answers.setVringBase
      (answers.setVringBase.ret ≠ 0) id,
    mapPart .desc id,
    mapPart .avail id,
    mapPart .used fun _ => ⟨answers.usedPhys, (answers.size .used).toUInt32⟩,
    mapPart .ring id,
    callStage (.setVringAddr (answers.addr queue enableLog)) answers.setVringAddr
      (vhostVirtqueueSetAddr answers.setVringAddr < 0) id,
    callStage (.setVringKick ⟨.ofNat queue, answers.hostNotifier⟩) answers.setVringKick
      (answers.setVringKick.ret ≠ 0) id]

def vhostVirtqueueStart (enableLog : Bool) (queue : Nat) (answers : StartAnswers) :
    List DeviceEvent × Int :=
  let traced := trace (queueStages enableLog queue answers)
  (traced.1, traced.2.getD 0)

def vhostVirtqueueStop (queue : Nat) (answers : StartAnswers) : List DeviceEvent :=
  .call (.getVringBase ⟨.ofNat queue, 0⟩) answers.getVringBase ::
    if answers.getVringBase.ret < 0 then [.abort]
    else if answers.stopUnmaps then
      [.unmap queue .ring, .unmap queue .used, .unmap queue .avail, .unmap queue .desc]
    else [.abort]

/-! ### Starting -/

structure StartEnv where
  ackedFeatures : UInt64
  setFeatures : CallReply
  setMemTable : CallReply
  queue : Nat → StartAnswers
  logAddress : UInt64
  setLogBase : CallReply

def vhostDevSetFeatures (reply : CallReply) : Int :=
  if reply.ret < 0 then reply.negErrno else 0

/-- The call of `vhost_dev_set_features`; `VHOST_F_LOG_ALL` is 26. -/
def featuresStage (env : StartEnv) (enableLog : Bool) : Stage VhostDev DeviceEvent :=
  callStage
    (.setFeatures (if enableLog then env.ackedFeatures ||| 0x4000000 else env.ackedFeatures))
    env.setFeatures (vhostDevSetFeatures env.setFeatures < 0) id

def memTableStage (env : StartEnv) : Stage VhostDev DeviceEvent :=
  callStage .setMemTable env.setMemTable (env.setMemTable.ret < 0) fun dev =>
    if env.setMemTable.ret < 0 then dev else { dev with table := some dev.memory.mem }

def queueStage (env : StartEnv) (enableLog : Bool) (queue : Nat) : Stage VhostDev DeviceEvent :=
  let started := vhostVirtqueueStart enableLog queue (env.queue queue)
  { does := started.1
    sets := fun dev =>
      { dev with
        vqs := dev.vqs.modify queue (settle (queueStages enableLog queue (env.queue queue))) }
    fails := if started.2 < 0 then some started.2 else none
    undoes := vhostVirtqueueStop queue (env.queue queue) }

/-- The new log. `VHOST_SET_LOG_BASE` reads the base through `hdev->log`, which is all zeros. -/
def logStage (env : StartEnv) : Stage VhostDev DeviceEvent :=
  callStage (.setLogBase 0) env.setLogBase (env.setLogBase.ret < 0) fun dev =>
    let size := vhostGetLogSize dev
    { dev with
      log := if size ≠ 0 then gMalloc0 env.logAddress (size * 8) else 0
      logSize := size
      words := fun _ => 0
      logRoom := size * 8
      logBase := if env.setLogBase.ret < 0 then dev.logBase else some 0 }

def startStages (env : StartEnv) (dev : VhostDev) : List (Stage VhostDev DeviceEvent) :=
  [featuresStage env dev.logEnabled, memTableStage env] ++
    (loop (queueStage env dev.logEnabled) dev.vqs.length ++
      if dev.logEnabled then [logStage env] else [])

structure StartOutcome where
  events : List DeviceEvent
  code : Int
  dev : VhostDev

def vhostDevStart (env : StartEnv) (dev : VhostDev) : StartOutcome :=
  let stages := startStages env dev
  let traced := trace stages
  let settled := settle stages (dev.setStarted true)
  ⟨traced.1, traced.2.getD 0, if traced.2.isSome then settled.setStarted false else settled⟩

/-! ### Initialising -/

structure InitAnswers where
  notifier : CallReply
  notifierFd : Int
  setVringCall : CallReply

def initQueueStages (queue : Nat) (answers : InitAnswers) : List (Stage Unit DeviceEvent) :=
  [{ does := if answers.notifier.ret < 0 then [] else [.notifierInit queue]
     sets := id
     fails := if answers.notifier.ret < 0 then some answers.notifier.ret else none
     undoes := [.notifierCleanup queue] },
    callStage (.setVringCall ⟨.ofNat queue, answers.notifierFd⟩) answers.setVringCall
      (answers.setVringCall.ret ≠ 0) id]

def vhostVirtqueueInit (queue : Nat) (answers : InitAnswers) : List DeviceEvent × Int :=
  let traced := trace (initQueueStages queue answers)
  (traced.1, traced.2.getD 0)

/-- `errno` after a failed `vhost_virtqueue_init`. -/
def InitAnswers.errno (answers : InitAnswers) : Nat :=
  if answers.notifier.ret < 0 then answers.notifier.errno else answers.setVringCall.errno

/-- What `vhost_dev_init` meets. The notifiers are closed before `errno` is read again, and
nothing sets it to zero. -/
structure InitEnv where
  setBackendType : Int
  devfd : Int
  backendInit : CallReply
  setOwner : CallReply
  getFeatures : CallReply
  queue : Nat → InitAnswers
  errnoAfterCleanup : Nat → Nat
  errnoAfterCleanup_ne_zero : ∀ errno, errno ≠ 0 → errnoAfterCleanup errno ≠ 0

def initQueueStage (env : InitEnv) (queue : Nat) : Stage Unit DeviceEvent :=
  let initialised := vhostVirtqueueInit queue (env.queue queue)
  { does := initialised.1
    sets := id
    fails := if initialised.2 < 0 then
        some (-(env.errnoAfterCleanup (env.queue queue).errno : Int)) else none
    undoes := [.notifierCleanup queue] }

/-- The steps of `vhost_dev_init` behind the connection to the backend. -/
def initStages (env : InitEnv) (nvqs : Nat) : List (Stage Unit DeviceEvent) :=
  [callStage .setOwner env.setOwner (env.setOwner.ret < 0) id,
    callStage .getFeatures env.getFeatures (env.getFeatures.ret < 0) id] ++
    loop (initQueueStage env) nvqs

def vhostDevInit (env : InitEnv) (nvqs : Nat) : List DeviceEvent × Int :=
  if env.setBackendType < 0 then ([], -1)
  else if env.devfd < 0 ∧ env.backendInit.ret < 0 then ([], env.backendInit.negErrno)
  else
    let traced := trace (initStages env nvqs)
    (traced.1 ++ if traced.2.isSome then [.backendCleanup] else [], traced.2.getD 0)

end VhostUser.Qemu.DevStages
