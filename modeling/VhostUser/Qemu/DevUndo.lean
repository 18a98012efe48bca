import VhostUser.Qemu.DevStages
import Mathlib.Data.List.Nodup

/-!
Contract: what a failed `vhost_dev_start` leaves behind.

The chains of labels in `vhost_virtqueue_start` and `vhost_dev_start` undo what was passed, but not
the mapping at which a queue stopped, if it was only too short, and not the new log. A queue whose
`VHOST_SET_VRING_KICK` fails without an error number has unmapped its parts and counts as started,
so that the loop that stops the queues unmaps them once more.

Owns: where the answers make a queue stop, the mappings and unmappings of a whole call, and for
which answers a failure leaves the device as it was.
-/

namespace VhostUser.Qemu.DevStages

open VhostUser.Lib.Staged VhostUser.Qemu.VhostLog

/-! ### One queue -/

def StartAnswers.Mapped (answers : StartAnswers) (part : RingPart) : Prop :=
  ¬((answers.map part).pointer = 0 ∨ (answers.map part).length ≠ answers.size part)

instance (answers : StartAnswers) (part : RingPart) : Decidable (answers.Mapped part) :=
  inferInstanceAs (Decidable (¬_))

inductive QueueExit where
  /-- `VHOST_SET_VRING_NUM` or `VHOST_SET_VRING_BASE`. -/
  | refused (errno : Nat)
  | unmapped (part : RingPart)
  | unaddressed (errno : Nat)
  | unkicked (errno : Nat)
  | started
deriving DecidableEq, Repr

def StartAnswers.exit (answers : StartAnswers) : QueueExit :=
  if answers.setVringNum.ret ≠ 0 then .refused answers.setVringNum.errno
  else if answers.setVringBase.ret ≠ 0 then .refused answers.setVringBase.errno
  else if ¬ answers.Mapped .desc then .unmapped .desc
  else if ¬ answers.Mapped .avail then .unmapped .avail
  else if ¬ answers.Mapped .used then .unmapped .used
  else if ¬ answers.Mapped .ring then .unmapped .ring
  else if vhostVirtqueueSetAddr answers.setVringAddr < 0 then
    .unaddressed answers.setVringAddr.errno
  else if answers.setVringKick.ret ≠ 0 then .unkicked answers.setVringKick.errno
  else .started

/-- The parts that are mapped before a part, the latest first. -/
@[simp] def RingPart.before : RingPart → List RingPart
  | .desc => []
  | .avail => [.desc]
  | .used => [.avail, .desc]
  | .ring => [.used, .avail, .desc]

@[simp] def RingPart.all : List RingPart := [.ring, .used, .avail, .desc]

/-- The parts that the function asks to map, the latest first. -/
@[simp] def QueueExit.attempted : QueueExit → List RingPart
  | .refused _ => []
  | .unmapped part => part :: part.before
  | .unaddressed _ | .unkicked _ | .started => RingPart.all

@[simp] def QueueExit.released : QueueExit → List RingPart
  | .refused _ | .started => []
  | .unmapped part => part.before
  | .unaddressed _ | .unkicked _ => RingPart.all

@[simp] def QueueExit.code : QueueExit → Int
  | .refused errno | .unaddressed errno | .unkicked errno => -(errno : Int)
  | .unmapped _ => -enomem
  | .started => 0

/-! ### The ledger of a queue -/

def DeviceEvent.isCall : DeviceEvent → Bool
  | .call _ _ => true
  | _ => false

def ledger (events : List DeviceEvent) : List DeviceEvent :=
  events.filter fun event => !event.isCall

@[simp] theorem ledger_nil : ledger [] = [] := rfl

@[simp] theorem ledger_append (first second : List DeviceEvent) :
    ledger (first ++ second) = ledger first ++ ledger second := List.filter_append ..

@[simp] theorem ledger_call (call : VhostCall) (reply : CallReply) (rest : List DeviceEvent) :
    ledger (.call call reply :: rest) = ledger rest := rfl

@[simp] theorem ledger_map (queue : Nat) (part : RingPart) (reply : MapReply)
    (rest : List DeviceEvent) :
    ledger (.map queue part reply :: rest) = .map queue part reply :: ledger rest := rfl

@[simp] theorem ledger_unmap (queue : Nat) (part : RingPart) (rest : List DeviceEvent) :
    ledger (.unmap queue part :: rest) = .unmap queue part :: ledger rest := rfl

variable {events : List DeviceEvent} {event : DeviceEvent} {reply : MapReply}

theorem mem_ledger (other : event.isCall = false) : event ∈ ledger events ↔ event ∈ events := by
  simp [ledger, other]

theorem count_ledger (other : event.isCall = false) :
    (ledger events).count event = events.count event :=
  List.count_filter (by rw [other]; rfl)

theorem mapStage_fails {σ : Type} (queue : Nat) (answers : StartAnswers) (part : RingPart)
    (sets : σ → σ) : (mapStage queue part (answers.size part) (answers.map part) sets).fails =
      if answers.Mapped part then none else some (-enomem) := by
  by_cases mapped : answers.Mapped part
  · rw [if_pos mapped]
    exact if_neg mapped
  · rw [if_neg mapped]
    exact if_pos (not_not.mp mapped)

section Queue

variable (enableLog : Bool) (queue : Nat) (answers : StartAnswers) {part : RingPart} {other : Nat}

/-- `vhost_virtqueue_start`, by the answer at which it stops. -/
theorem vhostVirtqueueStart_spec :
    (ledger (vhostVirtqueueStart enableLog queue answers).1,
      (vhostVirtqueueStart enableLog queue answers).2) =
      ((answers.exit.attempted.reverse.map fun part => .map queue part (answers.map part)) ++
        answers.exit.released.map (.unmap queue), answers.exit.code) := by
  unfold vhostVirtqueueStart queueStages StartAnswers.exit trace
  -- one case for each label, in the order of the steps
  by_cases num : answers.setVringNum.ret ≠ 0
  · simp [num, traceFrom, CallReply.negErrno]
  by_cases base : answers.setVringBase.ret ≠ 0
  · simp [num, base, traceFrom, CallReply.negErrno]
  by_cases desc : answers.Mapped .desc
  swap
  · simp [num, base, desc, mapStage_fails, traceFrom]
  by_cases avail : answers.Mapped .avail
  swap
  · simp [num, base, desc, avail, mapStage_fails, traceFrom]
  by_cases used : answers.Mapped .used
  swap
  · simp [num, base, desc, avail, used, mapStage_fails, traceFrom]
  by_cases ring : answers.Mapped .ring
  swap
  · simp [num, base, desc, avail, used, ring, mapStage_fails, traceFrom]
  by_cases addr : vhostVirtqueueSetAddr answers.setVringAddr < 0
  · simp [num, base, desc, avail, used, ring, addr, mapStage_fails, traceFrom, CallReply.negErrno]
  by_cases kick : answers.setVringKick.ret ≠ 0
  · simp [num, base, desc, avail, used, ring, addr, kick, mapStage_fails, traceFrom,
      CallReply.negErrno]
  · simp [num, base, desc, avail, used, ring, addr, kick, mapStage_fails, traceFrom]

theorem vhostVirtqueueStart_ledger : ledger (vhostVirtqueueStart enableLog queue answers).1 =
    (answers.exit.attempted.reverse.map fun part => .map queue part (answers.map part)) ++
      answers.exit.released.map (.unmap queue) :=
  congrArg Prod.fst (vhostVirtqueueStart_spec enableLog queue answers)

theorem vhostVirtqueueStart_code :
    (vhostVirtqueueStart enableLog queue answers).2 = answers.exit.code :=
  congrArg Prod.snd (vhostVirtqueueStart_spec enableLog queue answers)

variable {enableLog queue answers}

theorem mem_map_start :
    .map other part reply ∈ (vhostVirtqueueStart enableLog queue answers).1 ↔
      other = queue ∧ part ∈ answers.exit.attempted ∧ reply = answers.map part := by
  rw [← mem_ledger rfl, vhostVirtqueueStart_ledger]
  simp only [List.mem_append, List.mem_map, List.mem_reverse, DeviceEvent.map.injEq, reduceCtorEq,
    and_false, exists_false, or_false]
  constructor
  · rintro ⟨mapped, attempted, rfl, rfl, rfl⟩
    exact ⟨rfl, attempted, rfl⟩
  · rintro ⟨rfl, attempted, rfl⟩
    exact ⟨part, attempted, rfl, rfl, rfl⟩

theorem mem_unmap_start :
    .unmap other part ∈ (vhostVirtqueueStart enableLog queue answers).1 ↔
      other = queue ∧ part ∈ answers.exit.released := by
  rw [← mem_ledger rfl, vhostVirtqueueStart_ledger]
  simp only [List.mem_append, List.mem_map, DeviceEvent.unmap.injEq, reduceCtorEq, and_false,
    exists_false, false_or]
  constructor
  · rintro ⟨unmapped, released, rfl, rfl⟩
    exact ⟨rfl, released⟩
  · rintro ⟨rfl, released⟩
    exact ⟨part, released, rfl, rfl⟩

theorem released_nodup (exit : QueueExit) : exit.released.Nodup := by
  cases exit with
  | unmapped part => cases part <;> decide
  | refused _ | started => exact List.nodup_nil
  | unaddressed _ | unkicked _ => exact show RingPart.all.Nodup by decide

theorem unmap_injective (queue : Nat) : Function.Injective (DeviceEvent.unmap queue) :=
  fun _ _ same => (DeviceEvent.unmap.inj same).2

theorem count_unmap_start :
    (vhostVirtqueueStart enableLog queue answers).1.count (.unmap queue part) =
      if part ∈ answers.exit.released then 1 else 0 := by
  have nodup : ((answers.exit.released).map (DeviceEvent.unmap queue)).Nodup :=
    (released_nodup _).map (unmap_injective queue)
  have maps : ((answers.exit.attempted.reverse.map fun part =>
      DeviceEvent.map queue part (answers.map part))).count (.unmap queue part) = 0 := by
    rw [List.count_eq_zero]
    simp
  rw [← count_ledger rfl, vhostVirtqueueStart_ledger, List.count_append, maps, Nat.zero_add,
    List.Nodup.count nodup]
  simp only [List.mem_map_of_injective (unmap_injective queue)]

theorem abort_not_mem_start : .abort ∉ (vhostVirtqueueStart enableLog queue answers).1 := by
  rw [← mem_ledger rfl, vhostVirtqueueStart_ledger]
  simp

end Queue

/-! ### Stopping a queue -/

def StartAnswers.Stoppable (answers : StartAnswers) : Prop :=
  0 ≤ answers.getVringBase.ret ∧ answers.stopUnmaps = true

instance (answers : StartAnswers) : Decidable answers.Stoppable :=
  inferInstanceAs (Decidable (_ ∧ _))

section Stop

variable {queue other : Nat} {answers : StartAnswers}

theorem vhostVirtqueueStop_ledger : ledger (vhostVirtqueueStop queue answers) =
    if answers.Stoppable then RingPart.all.map (.unmap queue) else [.abort] := by
  by_cases stoppable : answers.Stoppable
  · rw [if_pos stoppable, vhostVirtqueueStop, if_neg (not_lt.mpr stoppable.1), if_pos stoppable.2]
    rfl
  rw [if_neg stoppable, vhostVirtqueueStop]
  split
  · rfl
  next answered =>
    rw [if_neg fun unmaps => stoppable ⟨not_lt.mp answered, unmaps⟩]
    rfl

theorem abort_mem_stop : .abort ∈ vhostVirtqueueStop queue answers ↔ ¬ answers.Stoppable := by
  rw [← mem_ledger rfl, vhostVirtqueueStop_ledger]
  split <;> simp [*]

theorem count_unmap_stop (stoppable : answers.Stoppable) (part : RingPart) :
    (vhostVirtqueueStop queue answers).count (.unmap queue part) = 1 := by
  rw [← count_ledger rfl, vhostVirtqueueStop_ledger, if_pos stoppable]
  cases part <;> simp

theorem unmap_not_mem_stop (different : queue ≠ other) (part : RingPart) :
    .unmap other part ∉ vhostVirtqueueStop queue answers := by
  rw [← mem_ledger rfl, vhostVirtqueueStop_ledger]
  split <;> simp [different.symm]

theorem map_not_mem_stop {part : RingPart} :
    .map other part reply ∉ vhostVirtqueueStop queue answers := by
  rw [← mem_ledger rfl, vhostVirtqueueStop_ledger]
  split <;> simp

end Stop

/-! ### Failed and started queues -/

namespace StartAnswers

variable {answers : StartAnswers}

def Fails (answers : StartAnswers) : Prop := answers.exit.code < 0

/-- It stopped at a mapping that is there, but too short. -/
def Leaks (answers : StartAnswers) : Prop :=
  ∃ part, answers.exit = .unmapped part ∧ (answers.map part).pointer ≠ 0

/-- It has unmapped its parts and counts as started. -/
def UnmappedButStarted (answers : StartAnswers) : Prop := answers.exit = .unkicked 0

/-- Behind the mappings all parts are mapped, and a refused address has an error number. -/
theorem exit_behind_maps :
    (∀ errno, answers.exit = .unkicked errno → ∀ part, answers.Mapped part) ∧
      ∀ errno, answers.exit = .unaddressed errno → errno ≠ 0 := by
  unfold exit
  split_ifs with num base desc avail used ring addr kick
  all_goals constructor <;> rintro _ ⟨⟩
  · intro zero
    simp [vhostVirtqueueSetAddr, CallReply.negErrno, zero] at addr
  · intro part
    cases part <;> assumption

/-- A queue that counts as started holds what it mapped, unless its kick was refused. -/
theorem holds_iff (started : ¬ answers.Fails) :
    (∀ part ∈ answers.exit.attempted, (answers.map part).pointer ≠ 0 →
        part ∉ answers.exit.released) ↔ ¬ answers.UnmappedButStarted := by
  obtain ⟨kicked, addressed⟩ := @exit_behind_maps answers
  unfold Fails at started
  unfold UnmappedButStarted
  rcases stop : answers.exit with errno | part | errno | errno | _
  · simp
  · rw [stop] at started
    exact absurd (show -enomem < 0 by decide) started
  · rw [stop] at started
    have := addressed errno stop
    simp only [QueueExit.code] at started
    omega
  · rw [stop] at started
    have zero : errno = 0 := by
      simp only [QueueExit.code] at started
      omega
    have present : (answers.map .desc).pointer ≠ 0 := fun null =>
      kicked errno stop .desc (.inl null)
    constructor
    · intro holds
      exact absurd (show RingPart.desc ∈ RingPart.all by decide)
        (holds .desc (show RingPart.desc ∈ RingPart.all by decide) present)
    · intro other
      exact absurd (congrArg QueueExit.unkicked zero) other
  · simp

/-- A queue that failed has given back what it mapped, unless the last mapping was too short. -/
theorem givesBack_iff (failed : answers.Fails) :
    (∀ part ∈ answers.exit.attempted, (answers.map part).pointer ≠ 0 →
        part ∈ answers.exit.released) ↔ ¬ answers.Leaks := by
  unfold Fails at failed
  unfold Leaks
  rcases stop : answers.exit with errno | part | errno | errno | _
  · simp
  · have apart : part ∉ part.before := by cases part <;> decide
    constructor
    · rintro givesBack ⟨other, same, present⟩
      cases same
      exact apart (givesBack part List.mem_cons_self present)
    · intro noLeak other attempted present
      rcases List.mem_cons.mp attempted with rfl | before
      · exact absurd ⟨other, rfl, present⟩ noLeak
      · exact before
  · simp
  · simp
  · rw [stop] at failed
    exact absurd failed (lt_irrefl 0)

end StartAnswers

/-! ### The mappings of a whole call -/

/-- Every mapping that was made has been undone by one unmapping. -/
def MapsUndone (events : List DeviceEvent) : Prop :=
  ∀ queue part reply, .map queue part reply ∈ events → reply.pointer ≠ 0 →
    events.count (.unmap queue part) = 1

section Unwound

variable (env : StartEnv) (enableLog : Bool) (count : Nat) (last : List DeviceEvent)
  {event : DeviceEvent} {queue : Nat}

/-- The events of a call that has started `count` queues, fails with `last` and stops the queues. -/
def unwound : List DeviceEvent :=
  emitted (loop (queueStage env enableLog) count) ++
    (last ++ unwind (loop (queueStage env enableLog) count).reverse)

/-- The events are about no queue that was started. -/
structure Foreign : Prop where
  unmap : ∀ queue part, .unmap queue part ∈ last → count ≤ queue
  map : ∀ queue part reply, .map queue part reply ∈ last → count ≤ queue
  abort : .abort ∉ last

variable {env enableLog count last}

theorem mem_emitted_queues :
    event ∈ emitted (loop (queueStage env enableLog) count) ↔
      ∃ queue < count, event ∈ (vhostVirtqueueStart enableLog queue (env.queue queue)).1 := by
  rw [emitted_loop]
  simp [queueStage]

theorem mem_unwind_queues :
    event ∈ unwind (loop (queueStage env enableLog) count).reverse ↔
      ∃ queue < count, event ∈ vhostVirtqueueStop queue (env.queue queue) := by
  simp [unwind, loop, queueStage]

theorem abort_not_mem_unwound (foreign : Foreign count last) :
    .abort ∉ unwound env enableLog count last ↔ ∀ queue < count, (env.queue queue).Stoppable := by
  have started : .abort ∉ emitted (loop (queueStage env enableLog) count) := by
    rw [mem_emitted_queues]
    rintro ⟨queue, _, member⟩
    exact abort_not_mem_start member
  simp only [unwound, List.mem_append, started, foreign.abort, false_or, mem_unwind_queues,
    abort_mem_stop, not_exists, not_and, not_not]

theorem mem_map_unwound {part : RingPart} :
    .map queue part reply ∈ unwound env enableLog count last ↔
      (queue < count ∧ part ∈ (env.queue queue).exit.attempted ∧
        reply = (env.queue queue).map part) ∨ .map queue part reply ∈ last := by
  simp only [unwound, List.mem_append, mem_emitted_queues, mem_unwind_queues, map_not_mem_stop,
    and_false, exists_false, or_false, mem_map_start]
  constructor
  · rintro (⟨other, below, rfl, attempted⟩ | member)
    · exact .inl ⟨below, attempted⟩
    · exact .inr member
  · rintro (⟨below, attempted⟩ | member)
    · exact .inl ⟨queue, below, rfl, attempted⟩
    · exact .inr member

theorem count_unmap_unwound (stoppable : ∀ queue < count, (env.queue queue).Stoppable)
    (queue : Nat) (part : RingPart) :
    (unwound env enableLog count last).count (.unmap queue part) =
      (if queue < count then (if part ∈ (env.queue queue).exit.released then 1 else 0) + 1 else 0) +
        last.count (.unmap queue part) := by
  have starts : ((List.range count).flatMap fun queue =>
      (vhostVirtqueueStart enableLog queue (env.queue queue)).1).count (.unmap queue part) =
        if queue < count then
          (vhostVirtqueueStart enableLog queue (env.queue queue)).1.count (.unmap queue part)
        else 0 :=
    count_flatMap_range
      (fun _ different member => different (mem_unmap_start.mp member).1.symm) count
  have stops : ((List.range count).flatMap fun queue =>
      vhostVirtqueueStop queue (env.queue queue)).count (.unmap queue part) =
        if queue < count then
          (vhostVirtqueueStop queue (env.queue queue)).count (.unmap queue part)
        else 0 :=
    count_flatMap_range (fun _ different => unmap_not_mem_stop different part) count
  rw [unwound, List.count_append, List.count_append, count_unwind_loop, emitted_loop]
  simp only [queueStage]
  rw [starts, stops]
  by_cases below : queue < count
  · rw [if_pos below, if_pos below, if_pos below, count_unmap_start,
      count_unmap_stop (stoppable queue below)]
    omega
  · rw [if_neg below, if_neg below, if_neg below, Nat.add_zero]

/-- A call has undone its mappings when every queue it had started still held what it mapped, and
the last one has given it back. -/
theorem mapsUndone_unwound_iff (foreign : Foreign count last)
    (stoppable : ∀ queue < count, (env.queue queue).Stoppable)
    (started : ∀ queue < count, ¬ (env.queue queue).Fails) :
    MapsUndone (unwound env enableLog count last) ↔
      (∀ queue < count, ¬ (env.queue queue).UnmappedButStarted) ∧ MapsUndone last := by
  constructor
  · intro undone
    constructor
    · intro queue below
      rw [← StartAnswers.holds_iff (started queue below)]
      intro part attempted present released
      have once := undone queue part _ (mem_map_unwound.mpr (.inl ⟨below, attempted, rfl⟩)) present
      rw [count_unmap_unwound stoppable, if_pos below, if_pos released] at once
      omega
    · intro queue part reply member present
      have once := undone queue part reply (mem_map_unwound.mpr (.inr member)) present
      have above := foreign.map queue part reply member
      rw [count_unmap_unwound stoppable, if_neg (not_lt.mpr above), Nat.zero_add] at once
      exact once
  · rintro ⟨held, lastUndone⟩ queue part reply member present
    rw [count_unmap_unwound stoppable]
    rcases mem_map_unwound.mp member with ⟨below, attempted, rfl⟩ | member
    · have kept := (StartAnswers.holds_iff (started queue below)).mpr (held queue below) part
        attempted present
      have absent : last.count (.unmap queue part) = 0 := by
        rw [List.count_eq_zero]
        intro unmapped
        exact absurd below (not_lt.mpr (foreign.unmap queue part unmapped))
      rw [if_pos below, if_neg kept, absent]
    · rw [if_neg (not_lt.mpr (foreign.map queue part reply member)), Nat.zero_add]
      exact lastUndone queue part reply member present

theorem start_foreign (queue : Nat) (answers : StartAnswers) :
    Foreign queue (vhostVirtqueueStart enableLog queue answers).1 where
  unmap _ _ member := (mem_unmap_start.mp member).1.ge
  map _ _ _ member := (mem_map_start.mp member).1.ge
  abort := abort_not_mem_start

theorem mapsUndone_start_iff {answers : StartAnswers} (failed : answers.Fails) :
    MapsUndone (vhostVirtqueueStart enableLog queue answers).1 ↔ ¬ answers.Leaks := by
  rw [← StartAnswers.givesBack_iff failed]
  constructor
  · intro undone part attempted present
    have once := undone queue part _ (mem_map_start.mpr ⟨rfl, attempted, rfl⟩) present
    rw [count_unmap_start] at once
    by_contra kept
    rw [if_neg kept] at once
    cases once
  · intro givesBack other part reply member present
    obtain ⟨rfl, attempted, rfl⟩ := mem_map_start.mp member
    rw [count_unmap_start, if_pos (givesBack part attempted present)]

end Unwound

theorem mapsUndone_ledger : MapsUndone (ledger events) ↔ MapsUndone events := by
  unfold MapsUndone
  simp only [mem_ledger (show (DeviceEvent.map _ _ _).isCall = false from rfl),
    count_ledger (show (DeviceEvent.unmap _ _).isCall = false from rfl)]

section Start

variable (env : StartEnv) (dev : VhostDev) {count : Nat} {code : Int} {enableLog : Bool}
  {rest : List (Stage VhostDev DeviceEvent)} {stage : Stage VhostDev DeviceEvent}
  {events : List DeviceEvent}

def openingStages : List (Stage VhostDev DeviceEvent) :=
  [featuresStage env dev.logEnabled, memTableStage env]

def queuesStages (count : Nat) : List (Stage VhostDev DeviceEvent) :=
  openingStages env dev ++ loop (queueStage env dev.logEnabled) count

/-- The device for which the log is sized, with the used rings of the queues. -/
def logReady : VhostDev :=
  applied (queuesStages env dev dev.vqs.length) (dev.setStarted true)

def StartEnv.Accepted : Prop :=
  ¬ vhostDevSetFeatures env.setFeatures < 0 ∧ 0 ≤ env.setMemTable.ret

variable {env dev}

theorem openingStages_passes (accepted : env.Accepted) : Passes (openingStages env dev) := by
  intro stage member
  rcases List.mem_cons.mp member with rfl | member
  · simp [featuresStage, accepted.1]
  · rw [List.mem_singleton.mp member]
    simp [memTableStage, accepted.2]

theorem queueStage_fails (enableLog : Bool) (queue : Nat) :
    (queueStage env enableLog queue).fails =
      if (env.queue queue).exit.code < 0 then some (env.queue queue).exit.code else none := by
  simp only [queueStage, vhostVirtqueueStart_code]

theorem queueStage_passed_iff {queue : Nat} :
    (queueStage env enableLog queue).fails = none ↔ ¬ (env.queue queue).Fails := by
  rw [queueStage_fails, StartAnswers.Fails]
  simp only [ite_eq_right_iff, reduceCtorEq, imp_false]

theorem loop_passes_iff :
    Passes (loop (queueStage env enableLog) count) ↔
      ∀ queue < count, ¬ (env.queue queue).Fails := by
  rw [passes_loop_iff]
  simp only [queueStage_passed_iff]

theorem queuesStages_passes (accepted : env.Accepted) {count : Nat}
    (started : ∀ queue < count, ¬ (env.queue queue).Fails) :
    Passes (queuesStages env dev count) :=
  passes_append.mpr ⟨openingStages_passes accepted, loop_passes_iff.mpr started⟩

theorem queuesStages_log (count : Nat) (state : VhostDev) :
    ((applied (queuesStages env dev count) state).log,
      (applied (queuesStages env dev count) state).logSize) = (state.log, state.logSize) := by
  refine @applied_keeps _ _ _ _ (fun dev : VhostDev => (dev.log, dev.logSize)) ?_ state
  intro stage member state
  rcases List.mem_append.mp member with opening | queues
  · rcases List.mem_cons.mp opening with rfl | table
    · rfl
    · rw [List.mem_singleton.mp table]
      by_cases refused : env.setMemTable.ret < 0 <;> simp [memTableStage, refused]
  · obtain ⟨queue, _, rfl⟩ := List.mem_map.mp queues
    rfl

/-- The events of a call that passes `count` queues and then fails at a stage. -/
theorem startEvents_failed (accepted : env.Accepted)
    (started : ∀ queue < count, ¬ (env.queue queue).Fails) (failed : stage.fails = some code) :
    trace (queuesStages env dev count ++ stage :: rest) =
      (emitted (openingStages env dev) ++ unwound env dev.logEnabled count stage.does,
        some code) := by
  have opening : unwind (openingStages env dev).reverse = [] := rfl
  rw [trace_failed (queuesStages_passes accepted started) failed, queuesStages, emitted_append,
    List.reverse_append, unwind_append, opening, List.append_nil, unwound, List.append_assoc]

structure Undone (outcome : StartOutcome) (dev : VhostDev) : Prop where
  started : outcome.dev.memory.started = false
  log : outcome.dev.log = dev.log
  logSize : outcome.dev.logSize = dev.logSize
  maps : MapsUndone outcome.events

/-- A call that returns a negative value leaves the device as it was. -/
def FailureUndone (env : StartEnv) (dev : VhostDev) : Prop :=
  .abort ∉ (vhostDevStart env dev).events → (vhostDevStart env dev).code < 0 →
    Undone (vhostDevStart env dev) dev

theorem undone_iff {stages : List (Stage VhostDev DeviceEvent)}
    (split : startStages env dev = stages) (traced : trace stages = (events, some code)) :
    FailureUndone env dev ↔ (.abort ∉ events → code < 0 →
      (settle stages (dev.setStarted true)).log = dev.log ∧
        (settle stages (dev.setStarted true)).logSize = dev.logSize ∧ MapsUndone events) := by
  have outcome : vhostDevStart env dev =
      ⟨events, code, (settle stages (dev.setStarted true)).setStarted false⟩ := by
    rw [vhostDevStart, split, traced]
    rfl
  unfold FailureUndone
  rw [outcome]
  constructor
  · intro undone returned negative
    obtain ⟨_, log, logSize, maps⟩ := undone returned negative
    exact ⟨log, logSize, maps⟩
  · intro undone returned negative
    obtain ⟨log, logSize, maps⟩ := undone returned negative
    exact ⟨rfl, log, logSize, maps⟩

theorem failureUndone_of_passed (passes : Passes (startStages env dev)) :
    FailureUndone env dev := by
  intro _ negative
  rw [vhostDevStart, trace_passed passes] at negative
  exact absurd negative (lt_irrefl 0)

theorem startStages_eq : startStages env dev =
    queuesStages env dev dev.vqs.length ++ if dev.logEnabled then [logStage env] else [] :=
  (List.append_assoc ..).symm

theorem mapsUndone_of_calls (calls : ledger events = []) : MapsUndone events := by
  rw [← mapsUndone_ledger, calls]
  intro queue part reply member
  cases member

theorem failureUndone_of_refused (refused : ¬ env.Accepted) : FailureUndone env dev := by
  obtain ⟨rest, split⟩ : ∃ rest, startStages env dev =
      featuresStage env dev.logEnabled :: memTableStage env :: rest := ⟨_, rfl⟩
  by_cases features : vhostDevSetFeatures env.setFeatures < 0
  · have failed : (featuresStage env dev.logEnabled).fails = some env.setFeatures.negErrno := by
      simp [featuresStage, features]
    rw [undone_iff split (traceFrom_failed failed), settle_failed failed]
    exact fun _ _ => ⟨rfl, rfl, mapsUndone_of_calls rfl⟩
  have table : env.setMemTable.ret < 0 := by
    by_contra accepted
    exact refused ⟨features, not_lt.mp accepted⟩
  have passed : (featuresStage env dev.logEnabled).fails = none := by
    simp [featuresStage, features]
  have failed : (memTableStage env).fails = some env.setMemTable.negErrno := by
    simp [memTableStage, table]
  have kept : ∀ dev, (memTableStage env).sets dev = dev := fun _ => if_pos table
  have traced := @traceFrom_passed _ _ (memTableStage env :: rest) [] _ passed
  rw [traceFrom_failed failed] at traced
  rw [undone_iff split traced, settle_passed passed, settle_failed failed, kept]
  exact fun _ _ => ⟨rfl, rfl, mapsUndone_of_calls rfl⟩

theorem failureUndone_at_stage (accepted : env.Accepted)
    (started : ∀ queue < count, ¬ (env.queue queue).Fails) (failed : stage.fails = some code)
    (split : startStages env dev = queuesStages env dev count ++ stage :: rest)
    (foreign : Foreign count stage.does) :
    FailureUndone env dev ↔ (code < 0 → (∀ queue < count, (env.queue queue).Stoppable) →
      (stage.sets (applied (queuesStages env dev count) (dev.setStarted true))).log = dev.log ∧
        (stage.sets (applied (queuesStages env dev count) (dev.setStarted true))).logSize =
          dev.logSize ∧
        (∀ queue < count, ¬ (env.queue queue).UnmappedButStarted) ∧ MapsUndone stage.does) := by
  have passes := @queuesStages_passes env dev accepted count started
  have calls : ledger (emitted (openingStages env dev)) = [] := rfl
  rw [undone_iff split (startEvents_failed accepted started failed), settle_append passes,
    settle_failed failed, ← mem_ledger rfl, ← mapsUndone_ledger, ledger_append, calls,
    List.nil_append, mem_ledger rfl, mapsUndone_ledger, abort_not_mem_unwound foreign]
  constructor
  · intro undone negative stoppable
    rw [← mapsUndone_unwound_iff foreign stoppable started]
    exact undone stoppable negative
  · intro undone stoppable negative
    rw [mapsUndone_unwound_iff foreign stoppable started]
    exact undone negative stoppable

theorem failureUndone_at_queue (accepted : env.Accepted) {failing : Nat}
    (inside : failing < dev.vqs.length) (started : ∀ queue < failing, ¬ (env.queue queue).Fails)
    (failed : (env.queue failing).Fails) :
    FailureUndone env dev ↔ ((∀ queue < failing, (env.queue queue).Stoppable) →
      (∀ queue < failing, ¬ (env.queue queue).UnmappedButStarted) ∧
        ¬ (env.queue failing).Leaks) := by
  obtain ⟨rest, turns⟩ := @loop_split _ _ (queueStage env dev.logEnabled) _ _ inside
  have split : startStages env dev = queuesStages env dev failing ++
      queueStage env dev.logEnabled failing ::
        (rest ++ if dev.logEnabled then [logStage env] else []) := by
    rw [startStages_eq, queuesStages, turns, queuesStages]
    simp only [List.append_assoc, List.cons_append]
  have stopped : (queueStage env dev.logEnabled failing).fails =
      some (env.queue failing).exit.code := by
    rw [queueStage_fails]
    exact if_pos failed
  have leaks : MapsUndone (queueStage env dev.logEnabled failing).does ↔
      ¬ (env.queue failing).Leaks := mapsUndone_start_iff failed
  have kept := @queuesStages_log env dev failing (dev.setStarted true)
  rw [failureUndone_at_stage accepted started stopped split (start_foreign failing _), leaks]
  constructor
  · intro undone stoppable
    exact (undone failed stoppable).2.2
  · intro undone _ stoppable
    exact ⟨congrArg Prod.fst kept, congrArg Prod.snd kept, undone stoppable⟩

theorem failureUndone_at_log (accepted : env.Accepted)
    (started : ∀ queue < dev.vqs.length, ¬ (env.queue queue).Fails)
    (enabled : dev.logEnabled = true) (refused : env.setLogBase.ret < 0) :
    FailureUndone env dev ↔ (env.setLogBase.errno ≠ 0 →
      (∀ queue < dev.vqs.length, (env.queue queue).Stoppable) →
      gMalloc0 env.logAddress (vhostGetLogSize (logReady env dev) * 8) = dev.log ∧
        vhostGetLogSize (logReady env dev) = dev.logSize ∧
        ∀ queue < dev.vqs.length, ¬ (env.queue queue).UnmappedButStarted) := by
  have split : startStages env dev = queuesStages env dev dev.vqs.length ++ logStage env :: [] := by
    rw [startStages_eq, if_pos enabled]
  have failed : (logStage env).fails = some env.setLogBase.negErrno := by
    simp [logStage, refused]
  have foreign : Foreign dev.vqs.length (logStage env).does := by
    constructor <;> simp [logStage]
  have negative : env.setLogBase.negErrno < 0 ↔ env.setLogBase.errno ≠ 0 := by
    unfold CallReply.negErrno
    omega
  have calls : MapsUndone (logStage env).does := mapsUndone_of_calls rfl
  have log : ((logStage env).sets (logReady env dev)).log =
      gMalloc0 env.logAddress (vhostGetLogSize (logReady env dev) * 8) := by
    change (if _ then _ else _) = _
    split
    · rfl
    next none => rw [not_not.mp none, UInt64.zero_mul, gMalloc0, if_pos rfl]
  rw [failureUndone_at_stage accepted started failed split foreign, negative, ← log]
  simp only [calls, and_true]
  rfl

/-- The answers with which a failed start leaves the device as it was. A queue that fails has no
mapping that was only too short; a log that is refused has the size and the place of the old one;
and no queue before has unmapped its parts already. -/
structure UndoneWhen (env : StartEnv) (dev : VhostDev) : Prop where
  atQueue : ∀ failing < dev.vqs.length, (∀ queue < failing, ¬ (env.queue queue).Fails) →
    (env.queue failing).Fails → (∀ queue < failing, (env.queue queue).Stoppable) →
    (∀ queue < failing, ¬ (env.queue queue).UnmappedButStarted) ∧ ¬ (env.queue failing).Leaks
  atLog : (∀ queue < dev.vqs.length, ¬ (env.queue queue).Fails) → dev.logEnabled = true →
    env.setLogBase.ret < 0 → env.setLogBase.errno ≠ 0 →
    (∀ queue < dev.vqs.length, (env.queue queue).Stoppable) →
    gMalloc0 env.logAddress (vhostGetLogSize (logReady env dev) * 8) = dev.log ∧
      vhostGetLogSize (logReady env dev) = dev.logSize ∧
      ∀ queue < dev.vqs.length, ¬ (env.queue queue).UnmappedButStarted

end Start

/-- A start that returns a negative value leaves the device as it was exactly for these answers. -/
theorem vhostDevStart_undone_iff (env : StartEnv) (dev : VhostDev) :
    FailureUndone env dev ↔ (env.Accepted → UndoneWhen env dev) := by
  by_cases accepted : env.Accepted
  swap
  · exact iff_of_true (failureUndone_of_refused accepted) fun other => absurd other accepted
  simp only [accepted, forall_const]
  rcases loop_cases (queueStage env dev.logEnabled) dev.vqs.length with
    passes | ⟨failing, inside, code, passes, failed⟩
  · have started := loop_passes_iff.mp passes
    by_cases refused : dev.logEnabled = true ∧ env.setLogBase.ret < 0
    · rw [failureUndone_at_log accepted started refused.1 refused.2]
      constructor
      · intro undone
        constructor
        · intro failing inside _ failed
          exact absurd failed (started failing inside)
        · intro _ _ _
          exact undone
      · intro condition
        exact condition.atLog started refused.1 refused.2
    · have whole : Passes (startStages env dev) := by
        rw [startStages_eq, passes_append]
        refine ⟨queuesStages_passes accepted started, ?_⟩
        intro stage member
        by_cases enabled : dev.logEnabled = true
        · rw [if_pos enabled] at member
          have accepted : 0 ≤ env.setLogBase.ret :=
            not_lt.mp fun negative => refused ⟨enabled, negative⟩
          rw [List.mem_singleton.mp member]
          simp [logStage, accepted]
        · rw [if_neg enabled] at member
          cases member
      refine iff_of_true (failureUndone_of_passed whole) ⟨?_, ?_⟩
      · intro failing inside _ failed
        exact absurd failed (started failing inside)
      · intro _ enabled negative
        exact absurd ⟨enabled, negative⟩ refused
  · have started := loop_passes_iff.mp passes
    have fails : (env.queue failing).Fails := by
      by_contra passed
      rw [queueStage_passed_iff.mpr passed] at failed
      cases failed
    rw [failureUndone_at_queue accepted inside started fails]
    constructor
    · intro undone
      constructor
      · intro other otherInside before otherFails
        -- only one queue is the first to fail
        have same : other = failing := by
          rcases lt_trichotomy other failing with earlier | same | later
          · exact absurd otherFails (started other earlier)
          · exact same
          · exact absurd fails (before failing later)
        subst same
        exact undone
      · intro none
        exact absurd fails (none failing inside)
    · intro condition
      exact condition.atQueue failing inside started fails

/-! ### Failed starts that leave something -/

def willingQueue : StartAnswers where
  num := 256
  lastAvailIdx := 0
  usedPhys := 0x2000
  hostNotifier := 20
  size := fun _ => 0x1000
  setVringNum := ⟨0, 0⟩
  setVringBase := ⟨0, 0⟩
  map := fun _ => ⟨0x7f0000000000, 0x1000⟩
  setVringAddr := ⟨0, 0⟩
  setVringKick := ⟨0, 0⟩
  getVringBase := ⟨0, 0⟩
  stopUnmaps := true

def willingEnv (queue : Nat → StartAnswers) (setLogBase : CallReply) : StartEnv where
  ackedFeatures := 0
  setFeatures := ⟨0, 0⟩
  setMemTable := ⟨0, 0⟩
  queue := queue
  logAddress := 0x7e0000000000
  setLogBase := setLogBase

def stoppedDev (vqs : Nat) (logEnabled : Bool) : VhostDev where
  memory := ⟨[], [], 0, 0, false, false⟩
  vqs := List.replicate vqs ⟨0, 0⟩
  logEnabled := logEnabled
  log := 0
  logSize := 0
  words := fun _ => 0
  logRoom := 0
  logBase := none
  table := none
  pending := []

def shortEnv : StartEnv :=
  willingEnv (fun _ => { willingQueue with map := fun _ => ⟨0x7f0000000000, 0x800⟩ }) ⟨0, 0⟩

def twiceEnv : StartEnv :=
  willingEnv (fun queue =>
    if queue = 0 then { willingQueue with setVringKick := ⟨-1, 0⟩ }
    else { willingQueue with setVringNum := ⟨-1, 5⟩ }) ⟨0, 0⟩

def refusedLogEnv : StartEnv := willingEnv (fun _ => willingQueue) ⟨-1, 22⟩

/-- A mapping that is too short stays, the parts of a queue are unmapped twice, and the new log
stays. -/
theorem vhostDevStart_leftovers :
    (¬ FailureUndone shortEnv (stoppedDev 1 false) ∧
      (vhostDevStart shortEnv (stoppedDev 1 false)).code = -12 ∧
      (vhostDevStart shortEnv (stoppedDev 1 false)).events.count (.unmap 0 .desc) = 0) ∧
    (¬ FailureUndone twiceEnv (stoppedDev 2 false) ∧
      (vhostDevStart twiceEnv (stoppedDev 2 false)).code = -5 ∧
      (vhostDevStart twiceEnv (stoppedDev 2 false)).events.count (.unmap 0 .ring) = 2) ∧
    ¬ FailureUndone refusedLogEnv (stoppedDev 1 true) ∧
      (vhostDevStart refusedLogEnv (stoppedDev 1 true)).code = -22 ∧
      (vhostDevStart refusedLogEnv (stoppedDev 1 true)).dev.log = 0x7e0000000000 := by
  refine ⟨⟨?_, by decide +kernel, by decide +kernel⟩, ⟨?_, by decide +kernel, by decide +kernel⟩,
    ?_, by decide +kernel, by decide +kernel⟩
  · intro undone
    have once := (undone (by decide +kernel) (by decide +kernel)).maps 0 .desc
      ⟨0x7f0000000000, 0x800⟩ (by decide +kernel) (by decide)
    exact absurd once (by decide +kernel)
  · intro undone
    have once := (undone (by decide +kernel) (by decide +kernel)).maps 0 .ring
      ⟨0x7f0000000000, 0x1000⟩ (by decide +kernel) (by decide)
    exact absurd once (by decide +kernel)
  · intro undone
    have same := (undone (by decide +kernel) (by decide +kernel)).log
    exact absurd same (by decide +kernel)

end VhostUser.Qemu.DevStages
