import Mathlib.Data.Fintype.Basic
import VhostUser.Server.Readiness

/-!
Contract: ring pointers and the memory table.

`_set_vring_addr` translates the user addresses of a ring once, with the table
of the time; `_set_mem_table` installs a new table and translates nothing again.
So the pointers follow the table as long as no table arrives after the first
addresses.
-/

namespace VhostUser.Server

open VhostUser.Lib VhostUser.Wire
open VHostUser

structure RingAddrs where
  desc : UInt64
  avail : UInt64
  used : UInt64
deriving DecidableEq, Repr

def Vring.pointers (ring : Vring) : RingAddrs := ⟨ring.desc, ring.avail, ring.used⟩

def RingAddrs.translate (addrs : RingAddrs) (memory : VHostUserLocalMemory) : RingAddrs :=
  ⟨mapUserAddr memory addrs.desc, mapUserAddr memory addrs.avail, mapUserAddr memory addrs.used⟩

/-! ### What ring functions leave alone -/

def VHostUser.config (server : VHostUser) : VHostUserLocalMemory × (Fin 2 → RingAddrs) :=
  (server.memory, fun index => (server.vring index).pointers)

theorem config_of_readiness {server after : VHostUser} {entry : Observation}
    (same : after.readiness = (server.observe entry).readiness) : after.config = server.config := by
  have setups : ∀ index, (after.vring index).setup = (server.vring index).setup :=
    congrFun (congrArg Readiness.setups same)
  refine Prod.ext (congrArg Readiness.memory same) (funext fun index => ?_)
  obtain ⟨desc, avail, used, -⟩ := RingSetup.mk.inj (setups index)
  exact RingAddrs.mk.injEq .. |>.mpr ⟨desc, avail, used⟩

theorem pollAvailVring_config (index : Fin 2) : Keeps config (pollAvailVring index) :=
  .bind .get fun _ => .ite
    (fun server => config_of_readiness (processAvailVring_readiness index server)) (.pure _)

theorem kickServer_config (kickfd count : Int) : Keeps config (kickServer kickfd count) :=
  .ite (.pure _) (.ite (.modify fun _ => rfl)
    (.bind (pollAvailVring_config _) fun _ => .pure _))

theorem vhostUserPollHandler_config : Keeps config vhostUserPollHandler :=
  .bind .get fun _ => .ite (.bind (pollAvailVring_config _) fun _ => .bind .get fun _ =>
    .ite (.bind (fun server => config_of_readiness (putVring_readiness _ _ server)) fun _ =>
      .modify fun _ => rfl) (.pure _)) (.pure _)

theorem sendPacket_config (packet : List UInt8) : Keeps config (sendPacket packet) :=
  .bind .get fun _ => .ite (.ite
    (.bind (fun server => config_of_readiness (putRxVring_readiness _ _ server)) fun _ =>
      .pure _) (.pure _)) (.pure _)

/-! ### Runs -/

def msgAddrs (msg : VHostUserLocalMsg) : RingAddrs :=
  ⟨.ofNat (addrDescUserAddr.get msg.request), .ofNat (addrAvailUserAddr.get msg.request),
    .ofNat (addrUsedUserAddr.get msg.request)⟩

/-- A server, with the user addresses last sent for each ring. -/
structure TableRun where
  server : VHostUser
  sent : Fin 2 → Option RingAddrs

def isRequest (request : Request) (msg : VHostUserLocalMsg) : Bool :=
  Request.ofCode? (Wire.request.get msg.request) = some request

def noteAddrs (sent : Fin 2 → Option RingAddrs) (msg : VHostUserLocalMsg) (index : Fin 2) :
    Option RingAddrs :=
  if isRequest .setVringAddr msg && addrIndex.get msg.request = index then some (msgAddrs msg)
  else sent index

def TableRun.next {α : Type} (sent : Fin 2 → Option RingAddrs) :
    EStateM.Result Fault VHostUser α → Option TableRun
  | .ok _ after => some ⟨after, sent⟩
  | .error _ _ => none

def TableRun.step (run : TableRun) : Event → Option TableRun
  | .message msg mmap =>
    TableRun.next (noteAddrs run.sent msg) ((inMsgServer msg mmap).run run.server)
  | .kick kickfd count => TableRun.next run.sent ((kickServer kickfd count).run run.server)
  | .poll => TableRun.next run.sent (vhostUserPollHandler.run run.server)
  | .send packet => TableRun.next run.sent ((sendPacket packet).run run.server)
  | .guest mem => some { run with server := { run.server with mem := mem } }

def TableRun.initial (mem : GuestMem) : TableRun := ⟨fresh mem, fun _ => none⟩

def tableMachine : Machine TableRun Event where
  start := fun run => ∃ mem, run = .initial mem
  step := TableRun.step

/-- The pointers of every addressed ring are the translations under the installed table. -/
def FollowsTable (run : TableRun) : Prop :=
  ∀ index addrs, run.sent index = some addrs →
    (run.server.vring index).pointers = addrs.translate run.server.memory

/-- A memory table arrives only before the first addresses. -/
def TableFirst (run : TableRun) : Event → Prop
  | .message msg _ => isRequest .setMemTable msg = true → ∀ index, run.sent index = none
  | _ => True

instance (run : TableRun) : (event : Event) → Decidable (TableFirst run event)
  | .message msg _ => inferInstanceAs
      (Decidable (isRequest .setMemTable msg = true → ∀ index, run.sent index = none))
  | .kick _ _ | .poll | .send _ | .guest _ => .isTrue trivial

section Steps

variable {run next : TableRun}

theorem next_eq_some {α : Type} {sent : Fin 2 → Option RingAddrs}
    {result : EStateM.Result Fault VHostUser α} (taken : TableRun.next sent result = some next) :
    next.sent = sent ∧ ∃ value, result = .ok value next.server := by
  cases result with
  | ok value after =>
    cases taken
    exact ⟨rfl, value, rfl⟩
  | error => simp [TableRun.next] at taken

section

variable (follows : FollowsTable run)
include follows

theorem FollowsTable.congr (sent : next.sent = run.sent)
    (config : next.server.config = run.server.config) : FollowsTable next := by
  have memory : next.server.memory = run.server.memory := congrArg Prod.fst config
  have pointers : ∀ index, (next.server.vring index).pointers =
      (run.server.vring index).pointers := congrFun (congrArg Prod.snd config)
  intro index addrs known
  rw [memory, pointers]
  exact follows index addrs (sent ▸ known)

theorem FollowsTable.work {α : Type} {program : ServerM α} (keeps : Keeps config program)
    (taken : TableRun.next run.sent (program.run run.server) = some next) : FollowsTable next := by
  obtain ⟨sent, value, returned⟩ := next_eq_some taken
  exact follows.congr sent (keeps.ok returned)

theorem FollowsTable.message {msg : VHostUserLocalMsg} {mmap : Mmap}
    (first : isRequest .setMemTable msg = true → ∀ index, run.sent index = none)
    (taken : TableRun.next (noteAddrs run.sent msg) ((inMsgServer msg mmap).run run.server) =
      some next) : FollowsTable next := by
  obtain ⟨sent, value, returned⟩ := next_eq_some taken
  obtain ⟨request, named, effect⟩ := inMsgServer_effect returned
  have decoded : ∀ other, isRequest other msg = decide (request = other) := by
    intro other
    simp [isRequest, named]
  have unnoted : request ≠ .setVringAddr → next.sent = run.sent := by
    intro different
    rw [sent]
    funext index
    simp [noteAddrs, decoded, different]
  generalize serverEq : next.server = after at effect
  cases effect with
  | table memory =>
    intro index addrs known
    rw [unnoted (by decide), first (by simp [decoded]) index] at known
    simp at known
  | addr idx index =>
    intro other addrs known
    rw [serverEq]
    rw [sent] at known
    by_cases same : other = idx
    · subst same
      simp only [noteAddrs, decoded, index, decide_true, Bool.and_self, if_true,
        Option.some.injEq] at known
      subst known
      simp only [setRing_same]
      rfl
    · have elsewhere : addrIndex.get msg.request ≠ other := by omega
      simp only [noteAddrs, elsewhere, decide_false, Bool.and_false, Bool.false_eq_true,
        if_false] at known
      simp only [setRing_other _ _ same]
      exact follows other addrs known
  | num idx index | base idx index | kick idx index fdList | call idx index =>
    refine follows.congr (unnoted (by decide)) ?_
    rw [serverEq]
    exact Prod.ext rfl (funext (setRing_view Vring.pointers (by rfl)))
  | polled =>
    refine follows.congr (unnoted (by decide)) ?_
    rw [serverEq]
    rfl
  | unchanged request passive =>
    refine follows.congr (unnoted fun is => ?_) (by rw [serverEq])
    simp [is] at passive

theorem FollowsTable.step {event : Event}
    (first : TableFirst run event) (taken : run.step event = some next) : FollowsTable next := by
  cases event with
  | message msg mmap => exact follows.message first taken
  | kick kickfd count => exact follows.work (kickServer_config kickfd count) taken
  | poll => exact follows.work vhostUserPollHandler_config taken
  | send packet => exact follows.work (sendPacket_config packet) taken
  | guest mem =>
    cases taken
    exact follows

end

end Steps

/-- If every memory table arrives before the first ring addresses, the ring pointers always follow
the installed table. -/
theorem tableFirst_followsTable {run : TableRun} (reached : tableMachine.Reached TableFirst run) :
    FollowsTable run := by
  refine reached.invariant ?_ fun state event next follows => follows.step
  rintro state ⟨mem, rfl⟩ index addrs known
  simp [TableRun.initial] at known

/-! ### Two runs -/

def descAndTranslation (events : List Event) : Option (UInt64 × Option UInt64) :=
  (tableMachine.run events (.initial idleMem)).map fun run =>
    ((run.server.vring txIdx).desc,
      (run.sent txIdx).map fun addrs => mapUserAddr run.server.memory addrs.desc)

/-- The order of QEMU: the table, then the rings. -/
theorem tableFirst_followsTable_start :
    ∃ run, tableMachine.Reached TableFirst run ∧ FollowsTable run ∧
      (run.server.vring txIdx).desc = 0x101000 := by
  have ends : descAndTranslation [tableEvent 0x100000, numEvent 0, addrEvent 0, numEvent 1,
      addrEvent 1, .kick 7 8, .poll] = some (0x101000, some 0x101000) := by decide +kernel
  have start : tableMachine.Reached TableFirst (.initial idleMem) := .start ⟨_, rfl⟩
  obtain ⟨run, reached, values⟩ := start.evaluate (by decide +kernel) ends
  exact ⟨run, reached, tableFirst_followsTable reached, (Prod.mk.inj values).1⟩

/-- After a second table the ring still points into the mapping of the first. -/
theorem followsTable_fails_on_update :
    ¬ ∀ run, tableMachine.Reached Machine.anyAction run → FollowsTable run := by
  intro always
  have ends : descAndTranslation [tableEvent 0x100000, addrEvent 1, tableEvent 0x200000] =
      some (0x101000, some 0x201000) := by decide +kernel
  obtain ⟨run, reached, values⟩ := Machine.evaluate_any ends ⟨_, rfl⟩
  obtain ⟨desc, translation⟩ := Prod.mk.inj values
  obtain ⟨addrs, known, translated⟩ := Option.map_eq_some_iff.mp translation
  have pointer : (run.server.vring txIdx).desc = mapUserAddr run.server.memory addrs.desc :=
    congrArg RingAddrs.desc (always run reached txIdx addrs known)
  rw [desc, translated] at pointer
  exact absurd pointer (by decide)

end VhostUser.Server
