import VhostUser.Lib.Machine
import VhostUser.Server.Effects
import VhostUser.Server.Loop
import VhostUser.Server.TxEntry

/-!
Contract: whether a ring is configured when the server works on it.

The functions that work on a ring are guarded by the ring's `desc` pointer
alone, while `num`, the three pointers and the memory table come from three
different messages. `Setup` follows these messages: a ring is sized once a
non-zero `num` arrived, and addressed as long as its last addresses were found
in the table that is still installed.

Owns:
- entering ring functions, for every way they can end;
- the machine of messages, kicks, polls and sent packets.
-/

namespace VhostUser.Server

open VhostUser.Lib VhostUser.Wire
open VHostUser

/-! ### Configured rings -/

/-- A pointer into a region that `mmap` placed. -/
def VHostUserLocalMemory.Holds (memory : VHostUserLocalMemory) (pointer : UInt64) : Prop :=
  pointer ≠ 0 ∧ ∃ region ∈ memory.active, region.mmapAddr ≠ 0 ∧
    region.mmapAddr.toNat ≤ pointer.toNat ∧
    pointer.toNat < region.mmapAddr.toNat + region.memorySize.toNat

structure FullyConfigured (memory : VHostUserLocalMemory) (ring : Vring) : Prop where
  num : ring.num ≠ 0
  desc : memory.Holds ring.desc
  avail : memory.Holds ring.avail
  used : memory.Holds ring.used

/-- The rings that ring functions were entered on, with the table of the time. -/
def enteredRings (trace : List Observation) : List (VHostUserLocalMemory × Vring) :=
  trace.filterMap fun entry =>
    match entry with
    | .entered _ _ ring memory => some (memory, ring)
    | _ => none

def EntersConfigured (trace : List Observation) : Prop :=
  ∀ entry ∈ enteredRings trace, FullyConfigured entry.1 entry.2

variable {function : RingFunction}

theorem EntersConfigured.entered {trace : List Observation} (configured : EntersConfigured trace)
    {index : Fin 2} {ring : Vring} {memory : VHostUserLocalMemory}
    (ready : FullyConfigured memory ring) :
    EntersConfigured (trace ++ [.entered function index ring memory]) := by
  intro entry member
  simp only [enteredRings, List.filterMap_append, List.mem_append] at member
  rcases member with before | here
  · exact configured entry before
  · simp only [List.filterMap_cons, List.filterMap_nil, List.mem_singleton] at here
    subst here
    exact ready

/-! ### What ring functions leave alone -/

structure RingSetup where
  desc : UInt64
  avail : UInt64
  used : UInt64
  num : UInt32

def Vring.setup (ring : Vring) : RingSetup := ⟨ring.desc, ring.avail, ring.used, ring.num⟩

/-- The configuration of the server and the ring functions entered so far. -/
@[ext] structure Readiness where
  memory : VHostUserLocalMemory
  setups : Fin 2 → RingSetup
  entered : List (VHostUserLocalMemory × Vring)

def VHostUser.readiness (server : VHostUser) : Readiness :=
  ⟨server.memory, fun index => (server.vring index).setup, enteredRings server.trace⟩

variable {server : VHostUser}

theorem readiness_setRing {index : Fin 2} {ring : Vring}
    (same : ring.setup = (server.vring index).setup) :
    (server.setRing index ring).readiness = server.readiness :=
  Readiness.ext rfl (funext fun other => setRing_view Vring.setup same other) rfl

theorem readiness_observe (server : VHostUser) {entry : Observation}
    (other : enteredRings [entry] = []) : (server.observe entry).readiness = server.readiness := by
  refine Readiness.ext rfl rfl ?_
  change enteredRings (server.trace ++ [entry]) = enteredRings server.trace
  unfold enteredRings at other ⊢
  rw [List.filterMap_append, other, List.append_nil]

/-- A view of the server that does not show the work of `process_avail_vring` on its ring. -/
structure AvailWorkFree {γ : Type} (view : VHostUser → γ) : Prop where
  used : ∀ (server : VHostUser) (base : UInt64) (used : VringUsed),
    view (server.setUsed base used) = view server
  packet : ∀ (server : VHostUser) (packet : List UInt8) (size : UInt32),
    view ({ server with buffer := packet, bufferSize := size }.observe (.received packet)) =
      view server
  advance : ∀ (server : VHostUser) (index : Fin 2), view (advanceRing server index) = view server

namespace AvailWorkFree

variable {γ : Type} {view : VHostUser → γ}

section

variable (free : AvailWorkFree view) (index : Fin 2)
include free index

theorem processDesc (aIdx : UInt32) : Keeps view (processDesc index aIdx) := by
  have handled : ∀ packet size, Keeps view (availHandlerServer packet size) :=
    fun packet size => .ite (.bind (.throw _) fun _ => .modify fun server => free.packet server _ _)
      (.modify fun server => free.packet server _ _)
  refine .bind .get fun server => .ite (.bind (.throw _) fun _ => ?_) ?_
  all_goals
    refine .bind (deref_keeps _) fun _ => ?_
    dsimp only
    split
    · exact .throw _
    · exact .ite (.pure _) (.bind (deref_keeps _) fun _ =>
        .bind (.modify fun server => free.used server _ _) fun _ =>
          .bind (handled _ _) fun _ => .pure _)

theorem availLoop (num : UInt32) (fuel : Nat)
    (aIdx : UInt16) (count : UInt32) : Keeps view (availLoop index num fuel aIdx count) := by
  induction fuel generalizing aIdx count with
  | zero => exact .throw _
  | succ fuel ih =>
    refine .bind .get fun server => .ite (.pure _) ?_
    exact .bind (free.processDesc index _) fun _ =>
      .bind (.modify fun server => free.advance server index) fun _ => ih _ _

/-- Beyond its entry, `process_avail_vring` leaves such a view alone. -/
theorem processAvailVring (server : VHostUser) :
    view (finalState ((processAvailVring index).run server)) = view (enterAvail server index) := by
  have rest : ∀ ring : Vring, Keeps view (do
      if ring.num = 0 then throw .divByZero
      deref ring.avail
      let count ← Server.availLoop index ring.num 65536
        (ring.lastAvailIdx.toUInt32 % ring.num).toUInt16 0
      deref ring.used
      modify fun server => server.setUsed ring.used
        { server.mem.used ring.used with idx := (server.vring index).lastUsedIdx }
      return count : ServerM UInt32) := by
    intro ring
    refine .ite (.bind (.throw _) fun _ => ?_) ?_
    all_goals
      exact .bind (deref_keeps _) fun _ => .bind (free.availLoop _ _ _ _ _) fun _ =>
        .bind (deref_keeps _) fun _ => .bind (.modify fun server => free.used server _ _) fun _ =>
          .pure _
  exact rest (server.vring index) (enterAvail server index)

end

end AvailWorkFree

theorem readiness_availWorkFree : AvailWorkFree readiness where
  used := fun _ _ _ => rfl
  packet := fun _ _ _ => readiness_observe _ rfl
  advance := fun _ _ => (readiness_observe _ rfl).trans (readiness_setRing rfl)

theorem processAvailVring_readiness (index : Fin 2) (server : VHostUser) :
    (finalState ((processAvailVring index).run server)).readiness =
      (enterAvail server index).readiness :=
  readiness_availWorkFree.processAvailVring index server

theorem storePacket_keeps (index : Fin 2) (aIdx : UInt16) (packet : List UInt8) :
    Keeps readiness (storePacket index aIdx packet) := by
  intro server
  unfold storePacket
  simp only [EStateM.run_bind, EStateM.run_get]
  split
  · rfl
  rename_i written _
  have rest : ∀ ring : Vring, Keeps readiness (do
      deref ring.avail
      if ring.num = 0 then throw .divByZero
      modify fun server => { server with
        mem := server.mem.setAvail ring.avail
          (appendAvail (server.mem.avail ring.avail) ring.num aIdx) } : ServerM Unit) :=
    fun ring => .bind (deref_keeps _) fun _ =>
      .ite (.bind (.throw _) fun _ => .modify fun _ => rfl) (.modify fun _ => rfl)
  exact rest (server.vring index) _

theorem putFrom_readiness {index : Fin 2} {packet : List UInt8} {reads : Bool} {moved : Vring}
    {finish : VHostUser → VHostUser} (same : moved.setup = (server.vring index).setup)
    (finished : ∀ server, (finish server).readiness = server.readiness) :
    (finalState (putFrom server function index packet reads moved finish)).readiness =
      (enterPut server function index).readiness := by
  unfold putFrom
  split
  · split
    · rfl
    have rest : Keeps readiness (do
        storePacket index (server.vring index).lastAvailIdx packet
        modify finish
        return (0 : Int) : ServerM Int) :=
      .bind (storePacket_keeps _ _ _) fun _ => .bind (.modify finished) fun _ => .pure _
    exact (rest _).trans (readiness_setRing same)
  · rfl

theorem putVring_readiness (index : Fin 2) (packet : List UInt8) (server : VHostUser) :
    (finalState ((putVring index packet).run server)).readiness =
      (enterPut server .putVring index).readiness := by
  rw [putVring_eq]
  exact putFrom_readiness rfl fun _ => readiness_observe _ rfl

theorem putRxVring_readiness (index : Fin 2) (packet : List UInt8) (server : VHostUser) :
    (finalState ((putRxVring index packet).run server)).readiness =
      (enterPut server .putRxVring index).readiness := by
  rw [putRxVring_eq]
  exact putFrom_readiness rfl fun _ => readiness_observe _ rfl

/-! ### Following the messages -/

structure Setup where
  sized : Fin 2 → Bool
  addressed : Fin 2 → Bool

def Setup.none : Setup := ⟨fun _ => false, fun _ => false⟩

def userMapped (memory : VHostUserLocalMemory) (addr : UInt64) : Bool :=
  match memory.active.find? fun region =>
      regionHas region.userspaceAddr region.memorySize addr with
  | some region => region.mmapAddr ≠ 0 &&
      region.mmapAddr.toNat + region.memorySize.toNat ≤ 2 ^ 64
  | Option.none => false

def addressesMapped (memory : VHostUserLocalMemory) (msg : VHostUserLocalMsg) : Bool :=
  userMapped memory (.ofNat (addrDescUserAddr.get msg.request)) &&
    userMapped memory (.ofNat (addrAvailUserAddr.get msg.request)) &&
    userMapped memory (.ofNat (addrUsedUserAddr.get msg.request))

def Setup.follow (setup : Setup) (memory : VHostUserLocalMemory) (msg : VHostUserLocalMsg) :
    Setup :=
  match Request.ofCode? (Wire.request.get msg.request) with
  | some .setMemTable => { setup with addressed := fun _ => false }
  | some .setVringNum =>
    { setup with
      sized := fun index => if stateIndex.get msg.request = index then
        stateNum.get msg.request ≠ 0 else setup.sized index }
  | some .setVringAddr =>
    { setup with
      addressed := fun index => if addrIndex.get msg.request = index then
        addressesMapped memory msg else setup.addressed index }
  | _ => setup

/-- What the messages say is true of the server. -/
structure Setup.Describes (setup : Setup) (server : VHostUser) : Prop where
  sized : ∀ index, setup.sized index = true → (server.vring index).num ≠ 0
  addressed : ∀ index, setup.addressed index = true →
    server.memory.Holds (server.vring index).desc ∧
    server.memory.Holds (server.vring index).avail ∧
    server.memory.Holds (server.vring index).used

theorem userMapped_holds {memory : VHostUserLocalMemory} {addr : UInt64}
    (mapped : userMapped memory addr = true) : memory.Holds (mapUserAddr memory addr) := by
  unfold userMapped at mapped
  split at mapped
  · rename_i region found
    simp only [ne_eq, decide_not, Bool.and_eq_true, Bool.not_eq_true', decide_eq_false_iff_not,
      decide_eq_true_eq] at mapped
    have inside := List.find?_some found
    simp only [regionHas, Bool.and_eq_true, decide_eq_true_eq, UInt64.le_iff_toNat_le,
      UInt64.lt_iff_toNat_lt, UInt64.toNat_add] at inside
    have positive : region.mmapAddr.toNat ≠ 0 := fun zero => mapped.1 (UInt64.toNat_inj.mp zero)
    have pointer : (mapUserAddr memory addr).toNat =
        region.mmapAddr.toNat + (addr.toNat - region.userspaceAddr.toNat) := by
      rw [mapUserAddr, mapAddr_of_find found, UInt64.toNat_sub, UInt64.toNat_add]
      omega
    refine ⟨fun zero => ?_, region, List.mem_of_find?_eq_some found, mapped.1, by omega, by omega⟩
    rw [zero] at pointer
    simp at pointer
    omega
  · simp at mapped

variable {setup : Setup}

theorem Setup.Describes.congr {after : VHostUser} (describes : setup.Describes server)
    (memory : after.memory = server.memory)
    (setups : ∀ index, (after.vring index).setup = (server.vring index).setup) :
    setup.Describes after := by
  have fields := fun index => RingSetup.mk.inj (setups index)
  refine ⟨fun index flagged => ?_, fun index flagged => ?_⟩
  · rw [(fields index).2.2.2]
    exact describes.sized index flagged
  · rw [memory, (fields index).1, (fields index).2.1, (fields index).2.2.1]
    exact describes.addressed index flagged

theorem Setup.Describes.follow {after : VHostUser} {msg : VHostUserLocalMsg} {request : Request}
    (describes : setup.Describes server) (named : Wire.request.get msg.request = request.code)
    (effect : MsgEffect msg server request after) :
    (setup.follow server.memory msg).Describes after := by
  have decoded : Request.ofCode? (Wire.request.get msg.request) = some request := by
    rw [named, Request.ofCode?_code]
  unfold Setup.follow
  rw [decoded]
  cases effect with
  | table memory => exact ⟨describes.sized, fun _ absent => absurd absent Bool.false_ne_true⟩
  | num idx index =>
    refine ⟨fun other flagged => ?_, fun other flagged => ?_⟩
    · by_cases same : other = idx
      · subst same
        have small : stateNum.get msg.request < 2 ^ 32 := stateNum.get_lt msg.request
        simp only [index, if_true, decide_eq_true_eq] at flagged
        rw [setRing_same]
        intro zero
        have value := congrArg UInt32.toNat zero
        simp only [UInt32.toNat_ofNat', UInt32.reduceToNat] at value
        rw [Nat.mod_eq_of_lt small] at value
        exact flagged value
      · have elsewhere : stateIndex.get msg.request ≠ other := by omega
        simp only [elsewhere, if_false] at flagged
        rw [setRing_other _ _ same]
        exact describes.sized other flagged
    · by_cases same : other = idx
      · subst same
        rw [setRing_same]
        exact describes.addressed other flagged
      · rw [setRing_other _ _ same]
        exact describes.addressed other flagged
  | addr idx index =>
    refine ⟨fun other flagged => ?_, fun other flagged => ?_⟩
    · refine fun zero => describes.sized other flagged (Eq.trans (Eq.symm ?_) zero)
      exact setRing_view Vring.num (by rfl) other
    by_cases same : other = idx
    · subst same
      simp only [index, if_true, addressesMapped, Bool.and_eq_true] at flagged
      simp only [setRing_same]
      exact ⟨userMapped_holds flagged.1.1, userMapped_holds flagged.1.2, userMapped_holds flagged.2⟩
    · have elsewhere : addrIndex.get msg.request ≠ other := by omega
      simp only [elsewhere, if_false] at flagged
      simp only [setRing_other _ _ same]
      exact describes.addressed other flagged
  | base idx index | kick idx index fdList | call idx index =>
    exact describes.congr rfl (setRing_view Vring.setup (by rfl))
  | polled => exact describes.congr rfl fun _ => rfl
  | unchanged request passive =>
    split
    · simp_all
    · simp_all
    · simp_all
    · exact describes

/-! ### Working on rings -/

/-- The rings of `rings` are set up once their `desc` is set. -/
structure Ready (setup : Setup) (rings : Fin 2 → Prop) (server : VHostUser) : Prop where
  trace : EntersConfigured server.trace
  describes : setup.Describes server
  complete : ∀ index, rings index → (server.vring index).desc ≠ 0 →
    setup.sized index = true ∧ setup.addressed index = true

section Working

variable {setup : Setup} {rings : Fin 2 → Prop} {server after : VHostUser} {index : Fin 2}

theorem Ready.congr (ready : Ready setup rings server)
    (same : after.readiness = server.readiness) : Ready setup rings after := by
  have memory : after.memory = server.memory := congrArg Readiness.memory same
  have setups : ∀ index, (after.vring index).setup = (server.vring index).setup :=
    congrFun (congrArg Readiness.setups same)
  have entered : enteredRings after.trace = enteredRings server.trace :=
    congrArg Readiness.entered same
  refine ⟨?_, ready.describes.congr memory setups, fun index used nonzero => ?_⟩
  · unfold EntersConfigured
    rw [entered]
    exact ready.trace
  · rw [(RingSetup.mk.inj (setups index)).1] at nonzero
    exact ready.complete index used nonzero

section

variable (ready : Ready setup rings server) (used : rings index)
  (nonzero : (server.vring index).desc ≠ 0)
include ready used nonzero

theorem Ready.enter (function : RingFunction) :
    Ready setup rings
      (server.observe (.entered function index (server.vring index) server.memory)) := by
  obtain ⟨sized, addressed⟩ := ready.complete index used nonzero
  obtain ⟨desc, avail, usedRing⟩ := ready.describes.addressed index addressed
  exact ⟨ready.trace.entered ⟨ready.describes.sized index sized, desc, avail, usedRing⟩,
    ready.describes.congr rfl fun _ => rfl, ready.complete⟩

theorem Ready.work {α : Type} {program : ServerM α}
    (leaves : (finalState (program.run server)).readiness = (server.observe (.entered function index
      (server.vring index) server.memory)).readiness) :
    Ready setup rings (finalState (program.run server)) ∧
      ∀ other, ((finalState (program.run server)).vring other).desc = (server.vring other).desc :=
  ⟨(ready.enter used nonzero function).congr leaves, fun other =>
    (RingSetup.mk.inj (congrFun (congrArg Readiness.setups leaves) other)).1⟩

end

theorem pollAvailVring_ready (used : rings index) (ready : Ready setup rings server) :
    Ready setup rings (finalState ((pollAvailVring index).run server)) ∧
      ∀ other, ((finalState ((pollAvailVring index).run server)).vring other).desc =
        (server.vring other).desc := by
  rw [pollAvailVring_eq]
  split
  · exact ⟨ready, fun _ => rfl⟩
  next set => exact ready.work used set (processAvailVring_readiness index server)

theorem kickServer_ready (kickfd count : Int) (used : 0 < count → rings txIdx) :
    Preserves (Ready setup rings) (kickServer kickfd count) := by
  unfold kickServer
  split
  · exact .pure _
  split
  · exact .modify fun server ready => ready.congr rfl
  · exact .bind (fun server ready => (pollAvailVring_ready (used (by omega)) ready).1) fun _ =>
      .pure _

theorem vhostUserPollHandler_ready (used : (server.vring rxIdx).desc ≠ 0 → ∀ index, rings index)
    (ready : Ready setup rings server) :
    Ready setup rings (finalState (vhostUserPollHandler.run server)) := by
  by_cases unset : (server.vring rxIdx).desc = 0
  · have idle : vhostUserPollHandler.run server = .ok () server := by
      simp [vhostUserPollHandler, unset]
    rw [idle]
    exact ready
  have puts : ∀ packet, Preserves
      (fun server => Ready setup rings server ∧ (server.vring rxIdx).desc ≠ 0) (do
        let _ ← putVring rxIdx packet
        modify fun server => { server with bufferSize := 0 } : ServerM Unit) := by
    intro packet
    refine .bind (fun server held => ?_) fun _ => .modify fun server held =>
      ⟨held.1.congr rfl, held.2⟩
    obtain ⟨put, kept⟩ := held.1.work (used unset rxIdx) held.2
      (putVring_readiness rxIdx packet server)
    exact ⟨put, kept rxIdx ▸ held.2⟩
  have polling : Preserves
      (fun server => Ready setup rings server ∧ (server.vring rxIdx).desc ≠ 0) (do
        let _ ← pollAvailVring txIdx
        let server ← get
        if server.bufferSize ≠ 0 then
          let _ ← putVring rxIdx (server.buffer.take server.bufferSize.toNat)
          modify fun server => { server with bufferSize := 0 } : ServerM Unit) := by
    refine .bind (fun server held => ?_) fun _ => .getBind fun server held => ?_
    · obtain ⟨polled, kept⟩ := pollAvailVring_ready (used unset txIdx) held.1
      exact ⟨polled, kept rxIdx ▸ held.2⟩
    · split
      · exact puts _ server held
      · exact held
  have final := (polling server ⟨ready, unset⟩).1
  unfold vhostUserPollHandler
  simp only [EStateM.run_bind, EStateM.run_get, ne_eq, unset, not_false_eq_true, if_true]
  simpa only [EStateM.run_bind, EStateM.run_get, ne_eq] using final

theorem sendPacket_ready (packet : List UInt8) (used : server.gSendLock = true → rings rxIdx)
    (ready : Ready setup rings server) :
    Ready setup rings (finalState ((sendPacket packet).run server)) := by
  by_cases sends : server.gSendLock = true ∧ (server.vring rxIdx).desc ≠ 0
  · have put := (ready.work (used sends.1) sends.2 (putRxVring_readiness rxIdx packet server)).1
    simp only [sendPacket, EStateM.run_bind, EStateM.run_get, sends.1, if_true]
    rw [if_pos sends.2, EStateM.run_bind]
    cases result : (putRxVring rxIdx packet).run server with
    | ok value after =>
      rw [result] at put
      exact put
    | error fault after =>
      rw [result] at put
      exact put
  · have idle : (sendPacket packet).run server = .ok () server := by
      simp only [sendPacket, EStateM.run_bind, EStateM.run_get]
      split
      · rename_i locked
        rw [if_neg fun set => sends ⟨locked, set⟩]
        rfl
      · rfl
    rw [idle]
    exact ready

end Working

/-! ### Runs -/

inductive Event where
  | message (msg : VHostUserLocalMsg) (mmap : Mmap)
  | kick (kickfd count : Int)
  | poll
  | send (packet : List UInt8)
  | guest (mem : GuestMem)

/-- A server, what the messages say about it, and whether it still runs. -/
structure ServerRun where
  server : VHostUser
  setup : Setup
  alive : Bool

def ServerRun.after {α : Type} (setup : Setup) (result : EStateM.Result Fault VHostUser α) :
    ServerRun where
  server := finalState result
  setup := setup
  alive := match result with
    | .ok _ _ => true
    | .error _ _ => false

def ServerRun.step (run : ServerRun) (event : Event) : Option ServerRun :=
  if run.alive then
    some (match event with
      | .message msg mmap => .after (run.setup.follow run.server.memory msg)
          ((inMsgServer msg mmap).run run.server)
      | .kick kickfd count => .after run.setup ((kickServer kickfd count).run run.server)
      | .poll => .after run.setup (vhostUserPollHandler.run run.server)
      | .send packet => .after run.setup ((sendPacket packet).run run.server)
      | .guest mem => { run with server := { run.server with mem := mem } })
  else none

def serverMachine : Machine ServerRun Event where
  start := fun run => ∃ mem, run = ⟨fresh mem, .none, true⟩
  step := ServerRun.step

/-- The ring was given its size, and its addresses since the last table, if its `desc` is set. -/
def ServerRun.SetUp (run : ServerRun) (index : Fin 2) : Prop :=
  (run.server.vring index).desc ≠ 0 →
    run.setup.sized index = true ∧ run.setup.addressed index = true

/-- Kicks, polls and packets find the rings they work on set up. -/
def SetUpFirst (run : ServerRun) : Event → Prop
  | .kick _ count => 0 < count → run.SetUp txIdx
  | .poll => (run.server.vring rxIdx).desc ≠ 0 → ∀ index, run.SetUp index
  | .send _ => run.server.gSendLock = true → run.SetUp rxIdx
  | .message _ _ | .guest _ => True

instance (run : ServerRun) (index : Fin 2) : Decidable (run.SetUp index) :=
  inferInstanceAs (Decidable (_ → _))

instance (run : ServerRun) (event : Event) : Decidable (SetUpFirst run event) := by
  cases event <;> unfold SetUpFirst <;> infer_instance

/-- What the messages say stays true while the server runs. -/
structure Sound (run : ServerRun) : Prop where
  trace : EntersConfigured run.server.trace
  describes : run.alive = true → run.setup.Describes run.server

variable {run : ServerRun}

theorem Sound.ready (sound : Sound run) (alive : run.alive = true) :
    Ready run.setup run.SetUp run.server :=
  ⟨sound.trace, sound.describes alive, fun _ complete => complete⟩

theorem Ready.sound {α : Type} {rings : Fin 2 → Prop} {result : EStateM.Result Fault VHostUser α}
    (ready : Ready setup rings (finalState result)) : Sound (.after setup result) :=
  ⟨ready.trace, fun _ => ready.describes⟩

theorem Sound.message (sound : Sound run) (alive : run.alive = true) (msg : VHostUserLocalMsg)
    (mmap : Mmap) :
    Sound (.after (run.setup.follow run.server.memory msg)
      ((inMsgServer msg mmap).run run.server)) := by
  have trace := inMsgServer_keeps_trace msg mmap run.server
  refine ⟨?_, fun survives => ?_⟩
  · exact trace.symm ▸ sound.trace
  cases result : (inMsgServer msg mmap).run run.server with
  | error fault state => simp [ServerRun.after, result] at survives
  | ok value after =>
    obtain ⟨request, named, effect⟩ := inMsgServer_effect result
    exact (sound.describes alive).follow named effect

theorem Sound.step {next : ServerRun} {event : Event} (sound : Sound run)
    (permitted : SetUpFirst run event) (taken : run.step event = some next) : Sound next := by
  unfold ServerRun.step at taken
  split at taken
  · rename_i alive
    have ready := sound.ready alive
    cases taken
    cases event with
    | message msg mmap => exact sound.message alive msg mmap
    | kick kickfd count =>
      exact (kickServer_ready kickfd count permitted run.server ready).sound
    | poll => exact (vhostUserPollHandler_ready permitted ready).sound
    | send packet => exact (sendPacket_ready packet permitted ready).sound
    | guest mem =>
      exact ⟨sound.trace, fun alive => (sound.describes alive).congr rfl fun _ => rfl⟩
  · simp at taken

/-- If kicks, polls and packets find their rings set up, ring functions are entered on fully
configured rings only. -/
theorem setUpFirst_entersConfigured {run : ServerRun}
    (reached : serverMachine.Reached SetUpFirst run) : EntersConfigured run.server.trace := by
  have sound : Sound run := by
    refine reached.invariant ?_ fun state event next sound => sound.step
    rintro state ⟨mem, rfl⟩
    exact ⟨by simp [EntersConfigured, enteredRings, fresh],
      fun _ => ⟨fun _ absent => absurd absent Bool.false_ne_true,
        fun _ absent => absurd absent Bool.false_ne_true⟩⟩
  exact sound.trace

/-! ### Two runs -/

def rawMsg (request : Request) (writes : List (ByteImage.ByteField × Nat)) (fds : List Int) :
    VHostUserLocalMsg where
  request := ByteImage.assemble ((Wire.request, request.code) :: writes) fun _ => 0
  fdNum := fds.length
  fds := fun idx => fds.getD idx 0

def tableEvent (mmapAddr : UInt64) : Event :=
  .message (rawMsg .setMemTable [(memoryNregions, 1), (regionUserspaceAddr 0, 0x10000),
    (regionMemorySize 0, 0x10000), (regionGuestPhysAddr 0, 0)] [5]) fun _ => some mmapAddr

def numEvent (index : Fin 2) : Event :=
  .message (rawMsg .setVringNum [(stateIndex, index), (stateNum, 2)] []) fun _ => none

def addrEvent (index : Fin 2) : Event :=
  .message (rawMsg .setVringAddr [(addrIndex, index), (addrDescUserAddr, 0x11000),
    (addrUsedUserAddr, 0x13000), (addrAvailUserAddr, 0x12000)] []) fun _ => none

def idleMem : GuestMem :=
  { GuestMem.unmapped with byte := fun _ => some 0 }

def enteredTotals (events : List Event) : Option (Nat × Nat) :=
  (serverMachine.run events ⟨fresh idleMem, .none, true⟩).map fun run =>
    ((enteredRings run.server.trace).length,
      (enteredRings run.server.trace).countP fun entry => entry.2.num = 0)

/-- The order of QEMU, with two kicks and a poll at the end. -/
theorem setUpFirst_entersConfigured_start :
    ∃ run, serverMachine.Reached SetUpFirst run ∧ EntersConfigured run.server.trace ∧
      (enteredRings run.server.trace).length = 3 := by
  have ends : enteredTotals [tableEvent 0x100000, numEvent 0, addrEvent 0, numEvent 1,
      addrEvent 1, .kick 7 8, .kick 7 8, .poll] = some (3, 0) := by decide +kernel
  have start : serverMachine.Reached SetUpFirst ⟨fresh idleMem, .none, true⟩ :=
    .start ⟨_, rfl⟩
  obtain ⟨run, reached, totals⟩ := start.evaluate (by decide +kernel) ends
  exact ⟨run, reached, setUpFirst_entersConfigured reached, (Prod.mk.inj totals).1⟩

/-- A kick that comes after the addresses but before the size enters
`process_avail_vring` with `num` zero. -/
theorem entersConfigured_fails_before_num :
    ¬ ∀ run, serverMachine.Reached Machine.anyAction run → EntersConfigured run.server.trace := by
  intro always
  have ends : enteredTotals [tableEvent 0x100000, addrEvent 1, .kick 7 8] = some (1, 1) := by
    decide +kernel
  obtain ⟨run, reached, totals⟩ := Machine.evaluate_any ends ⟨_, rfl⟩
  have found : 0 < (enteredRings run.server.trace).countP fun entry => entry.2.num = 0 := by
    rw [(Prod.mk.inj totals).2]
    decide
  obtain ⟨entry, member, zero⟩ := List.countP_pos_iff.mp found
  exact (always run reached entry member).num (by simpa using zero)

end VhostUser.Server
