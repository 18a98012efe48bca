import VhostUser.Qemu.DevUndo

/-!
Contract: whether the functions that initialise and start a vhost device report a failed call of
the backend.

A failed call is turned into `-errno`, and that is no failure when `errno` is zero. `ioctl` always
stores an error number when it fails. `vhost_user_call` returns -1 without a connection and for an
empty memory table, and leaves `errno` as it was.

Owns: for which backends a result of zero means that all calls succeeded.
-/

namespace VhostUser.Qemu.DevStages

open VhostUser.Lib VhostUser.Lib.Staged VhostUser.Qemu.VhostLog

/-- The replies that a backend can give, for every value that `errno` had before. -/
def Backend := CallReply → Prop

def Backend.NumbersFailures (backend : Backend) : Prop :=
  ∀ reply, backend reply → reply.ret < 0 → reply.errno ≠ 0

def AllSucceeded (events : List DeviceEvent) : Prop :=
  ∀ call reply, .call call reply ∈ events → 0 ≤ reply.ret

theorem allSucceeded_append {first second : List DeviceEvent} :
    AllSucceeded (first ++ second) ↔ AllSucceeded first ∧ AllSucceeded second := by
  simp only [AllSucceeded, List.mem_append, or_imp, forall_and]

theorem allSucceeded_flatMap {α : Type} {items : List α} {events : α → List DeviceEvent}
    (each : ∀ item ∈ items, AllSucceeded (events item)) : AllSucceeded (items.flatMap events) := by
  intro call reply member
  obtain ⟨item, listed, member⟩ := List.mem_flatMap.mp member
  exact each item listed call reply member

section Stages

variable {σ : Type} {stages : List (Stage σ DeviceEvent)}

/-- A stage that goes on, or fails with zero, made no call that failed. -/
def Tells (stage : Stage σ DeviceEvent) : Prop :=
  (∀ code, stage.fails = some code → code = 0) → AllSucceeded stage.does

theorem emitted_succeeded (tells : ∀ stage ∈ stages, Tells stage) (passes : Passes stages) :
    AllSucceeded (emitted stages) := by
  refine allSucceeded_flatMap fun stage member => tells stage member fun code fails => ?_
  rw [passes stage member] at fails
  cases fails

theorem allSucceeded_of_zero (tells : ∀ stage ∈ stages, Tells stage)
    (silent : (∀ stage ∈ stages, AllSucceeded stage.undoes) ∨
      ∀ stage ∈ stages, stage.fails ≠ some 0)
    (zero : (trace stages).2.getD 0 = 0) : AllSucceeded (trace stages).1 := by
  rcases passes_or_failed stages with passes | ⟨first, stage, rest, code, rfl, passes, failed⟩
  · rw [trace_passed passes]
    exact emitted_succeeded tells passes
  rw [trace_failed passes failed] at zero ⊢
  obtain ⟨before, behind⟩ := List.forall_mem_append.mp tells
  rw [allSucceeded_append, allSucceeded_append]
  refine ⟨emitted_succeeded before passes, ?_, ?_⟩
  · apply behind stage List.mem_cons_self
    intro other fails
    rw [failed] at fails
    cases fails
    exact zero
  · rcases silent with silent | never
    · exact allSucceeded_flatMap fun other member =>
        silent other (List.mem_append_left _ (List.mem_reverse.mp member))
    · have same : code = 0 := zero
      exact absurd (same ▸ failed) (never stage (List.mem_append_right _ List.mem_cons_self))

theorem callStage_tells {call : VhostCall} {reply : CallReply} {failed : Bool} {sets : σ → σ}
    (numbered : reply.ret < 0 → reply.errno ≠ 0) (checked : reply.ret < 0 → failed = true) :
    Tells (callStage call reply failed sets) := by
  intro onlyZero other given member
  cases List.mem_singleton.mp member
  by_contra negative
  have refused := not_le.mp negative
  have zero := onlyZero reply.negErrno (if_pos (checked refused))
  unfold CallReply.negErrno at zero
  exact numbered refused (by omega)

theorem mapStage_tells {queue : Nat} {part : RingPart} {size : UInt64} {reply : MapReply}
    {sets : σ → σ} : Tells (mapStage queue part size reply sets) := by
  intro _ call given member
  cases List.mem_singleton.mp member

end Stages

/-! ### Queues -/

/-- The calls of `vhost_virtqueue_start` and `vhost_virtqueue_stop` are answered by the backend. -/
structure StartAnswers.From (backend : Backend) (answers : StartAnswers) : Prop where
  setVringNum : backend answers.setVringNum
  setVringBase : backend answers.setVringBase
  setVringAddr : backend answers.setVringAddr
  setVringKick : backend answers.setVringKick
  getVringBase : backend answers.getVringBase

def ReportsVirtqueueInit (backend : Backend) : Prop :=
  ∀ queue answers, backend answers.setVringCall →
    (vhostVirtqueueInit queue answers).2 = 0 → AllSucceeded (vhostVirtqueueInit queue answers).1

def ReportsVirtqueueStart (backend : Backend) : Prop :=
  ∀ enableLog queue answers, answers.From backend →
    (vhostVirtqueueStart enableLog queue answers).2 = 0 →
    AllSucceeded (vhostVirtqueueStart enableLog queue answers).1

section Queues

variable {backend : Backend}

theorem Backend.NumbersFailures.virtqueueInit (numbered : backend.NumbersFailures) :
    ReportsVirtqueueInit backend := by
  intro queue answers given zero
  refine allSucceeded_of_zero ?_ (.inl ?_) zero
  · rw [initQueueStages, List.forall_mem_cons, List.forall_mem_singleton]
    constructor
    · intro _ call reply member
      by_cases failed : answers.notifier.ret < 0 <;> simp [failed] at member
    · exact callStage_tells (numbered _ given) fun refused => decide_eq_true refused.ne
  · rw [initQueueStages, List.forall_mem_cons, List.forall_mem_singleton]
    simp [AllSucceeded]

theorem Backend.NumbersFailures.virtqueueStart (numbered : backend.NumbersFailures) :
    ReportsVirtqueueStart backend := by
  intro enableLog queue answers given zero
  have addressed : answers.setVringAddr.ret < 0 →
      vhostVirtqueueSetAddr answers.setVringAddr < 0 := by
    intro refused
    have := numbered _ given.setVringAddr refused
    rw [vhostVirtqueueSetAddr, if_pos refused, CallReply.negErrno]
    omega
  refine allSucceeded_of_zero ?_ (.inl ?_) zero
  · simp only [queueStages, List.forall_mem_cons, mapStage_tells, true_and]
    refine ⟨?_, ?_, ?_, ?_, List.forall_mem_nil _⟩
    · exact callStage_tells (numbered _ given.setVringNum) fun refused => decide_eq_true refused.ne
    · exact callStage_tells (numbered _ given.setVringBase) fun refused => decide_eq_true refused.ne
    · exact callStage_tells (numbered _ given.setVringAddr) fun refused =>
        decide_eq_true (addressed refused)
    · exact callStage_tells (numbered _ given.setVringKick) fun refused => decide_eq_true refused.ne
  · simp [queueStages, AllSucceeded]

end Queues

/-! ### Devices -/

structure StartEnv.From (backend : Backend) (env : StartEnv) : Prop where
  setFeatures : backend env.setFeatures
  setMemTable : backend env.setMemTable
  queue : ∀ queue, (env.queue queue).From backend
  setLogBase : backend env.setLogBase

structure InitEnv.From (backend : Backend) (env : InitEnv) : Prop where
  setOwner : backend env.setOwner
  getFeatures : backend env.getFeatures
  setVringCall : ∀ queue, backend (env.queue queue).setVringCall

def ReportsDevStart (backend : Backend) : Prop :=
  ∀ env dev, env.From backend → .abort ∉ (vhostDevStart env dev).events →
    (vhostDevStart env dev).code = 0 → AllSucceeded (vhostDevStart env dev).events

def ReportsDevInit (backend : Backend) : Prop :=
  ∀ env nvqs, env.From backend →
    (vhostDevInit env nvqs).2 = 0 → AllSucceeded (vhostDevInit env nvqs).1

section Devices

variable {backend : Backend}

theorem exit_code_nonpos (exit : QueueExit) : exit.code ≤ 0 := by
  cases exit with
  | refused errno | unaddressed errno | unkicked errno => exact Int.neg_nonpos_of_nonneg (by omega)
  | unmapped _ => exact show -enomem ≤ 0 by decide
  | started => exact le_refl 0

theorem queueStage_tells (numbered : backend.NumbersFailures) {env : StartEnv}
    (given : env.From backend) (enableLog : Bool) (queue : Nat) :
    Tells (queueStage env enableLog queue) := by
  intro onlyZero
  apply numbered.virtqueueStart enableLog queue _ (given.queue queue)
  rw [vhostVirtqueueStart_code]
  have below := exit_code_nonpos (env.queue queue).exit
  by_contra nonzero
  have negative : (env.queue queue).exit.code < 0 := lt_of_le_of_ne below nonzero
  apply nonzero
  apply onlyZero
  rw [queueStage_fails, if_pos negative]

theorem vhostDevSetFeatures_neg_iff {reply : CallReply}
    (numbered : reply.ret < 0 → reply.errno ≠ 0) :
    vhostDevSetFeatures reply < 0 ↔ reply.ret < 0 := by
  unfold vhostDevSetFeatures CallReply.negErrno
  by_cases refused : reply.ret < 0
  · have := numbered refused
    rw [if_pos refused]
    omega
  · rw [if_neg refused]
    omega

theorem callStage_never {σ : Type} {call : VhostCall} {reply : CallReply} {failed : Bool}
    {sets : σ → σ} (numbered : reply.ret < 0 → reply.errno ≠ 0)
    (checked : failed = true → reply.ret < 0) :
    (callStage call reply failed sets).fails ≠ some 0 := by
  intro zero
  rcases failed with _ | _
  · cases zero
  · have same : reply.negErrno = 0 := Option.some.inj zero
    unfold CallReply.negErrno at same
    exact numbered (checked rfl) (by omega)

/-- What every stage of `vhost_dev_start` has is enough to check for five kinds of stages. -/
theorem startStages_forall {property : Stage VhostDev DeviceEvent → Prop} {env : StartEnv}
    {dev : VhostDev} (features : property (featuresStage env dev.logEnabled))
    (table : property (memTableStage env))
    (queue : ∀ queue, property (queueStage env dev.logEnabled queue))
    (log : property (logStage env)) : ∀ stage ∈ startStages env dev, property stage := by
  intro stage member
  simp only [startStages, List.cons_append, List.nil_append, List.mem_cons,
    List.mem_append] at member
  rcases member with rfl | rfl | turn | last
  · exact features
  · exact table
  · obtain ⟨index, _, rfl⟩ := List.mem_map.mp turn
    exact queue index
  by_cases enabled : dev.logEnabled = true
  · rw [if_pos enabled] at last
    rw [List.mem_singleton.mp last]
    exact log
  · rw [if_neg enabled] at last
    cases last

theorem Backend.NumbersFailures.devStart (numbered : backend.NumbersFailures) :
    ReportsDevStart backend := by
  intro env dev given _ zero
  have features := vhostDevSetFeatures_neg_iff (numbered _ given.setFeatures)
  refine allSucceeded_of_zero (startStages_forall ?_ ?_ ?_ ?_)
    (.inr (startStages_forall ?_ ?_ ?_ ?_)) zero
  · exact callStage_tells (numbered _ given.setFeatures) fun refused =>
      decide_eq_true (features.mpr refused)
  · exact callStage_tells (numbered _ given.setMemTable) fun refused => decide_eq_true refused
  · exact queueStage_tells numbered given dev.logEnabled
  · exact callStage_tells (numbered _ given.setLogBase) fun refused => decide_eq_true refused
  · exact callStage_never (numbered _ given.setFeatures) fun failed =>
      features.mp (of_decide_eq_true failed)
  · exact callStage_never (numbered _ given.setMemTable) fun failed => of_decide_eq_true failed
  · intro queue zero
    rw [queueStage_fails] at zero
    by_cases negative : (env.queue queue).exit.code < 0
    · rw [if_pos negative] at zero
      exact negative.ne (Option.some.inj zero)
    · rw [if_neg negative] at zero
      cases zero
  · exact callStage_never (numbered _ given.setLogBase) fun failed => of_decide_eq_true failed

theorem vhostVirtqueueInit_eq (queue : Nat) (answers : InitAnswers) :
    (vhostVirtqueueInit queue answers).2 =
      if answers.notifier.ret < 0 then answers.notifier.ret
      else if answers.setVringCall.ret ≠ 0 then answers.setVringCall.negErrno else 0 := by
  unfold vhostVirtqueueInit initQueueStages trace
  by_cases notifier : answers.notifier.ret < 0
  · simp [notifier, traceFrom]
  · by_cases call : answers.setVringCall.ret ≠ 0 <;> simp [notifier, call, traceFrom]

theorem initQueueStage_tells (numbered : backend.NumbersFailures) {env : InitEnv}
    (given : env.From backend) (queue : Nat) : Tells (initQueueStage env queue) := by
  intro onlyZero
  have code := vhostVirtqueueInit_eq queue (env.queue queue)
  by_cases notifier : (env.queue queue).notifier.ret < 0
  · -- without a notifier there was no call
    have events : (vhostVirtqueueInit queue (env.queue queue)).1 = [] := by
      simp [vhostVirtqueueInit, initQueueStages, trace, traceFrom, notifier]
    intro call reply member
    rw [show (initQueueStage env queue).does = [] from events] at member
    cases member
  rw [if_neg notifier] at code
  apply numbered.virtqueueInit queue _ (given.setVringCall queue)
  by_cases refused : (env.queue queue).setVringCall.ret ≠ 0
  · rw [if_pos refused] at code
    rw [code]
    by_contra nonzero
    have negative : (vhostVirtqueueInit queue (env.queue queue)).2 < 0 := by
      rw [code]
      unfold CallReply.negErrno at nonzero ⊢
      omega
    have errno : (env.queue queue).errno ≠ 0 := by
      rw [InitAnswers.errno, if_neg notifier]
      intro zero
      exact nonzero (by rw [CallReply.negErrno, zero]; rfl)
    have zero := onlyZero _ (if_pos negative)
    have := env.errnoAfterCleanup_ne_zero _ errno
    omega
  · rw [code, if_neg refused]

theorem Backend.NumbersFailures.devInit (numbered : backend.NumbersFailures) :
    ReportsDevInit backend := by
  intro env nvqs given zero
  have nothing : AllSucceeded [] := fun _ _ member => absurd member List.not_mem_nil
  have cleanup : AllSucceeded [.backendCleanup] := by simp [AllSucceeded]
  unfold vhostDevInit at zero ⊢
  by_cases unknown : env.setBackendType < 0
  · rw [if_pos unknown]
    exact nothing
  by_cases unconnected : env.devfd < 0 ∧ env.backendInit.ret < 0
  · rw [if_neg unknown, if_pos unconnected]
    exact nothing
  rw [if_neg unknown, if_neg unconnected] at zero ⊢
  have tells : ∀ stage ∈ initStages env nvqs, Tells stage := by
    intro stage member
    rcases List.mem_append.mp member with opening | turns
    · simp only [List.mem_cons, List.not_mem_nil, or_false] at opening
      rcases opening with rfl | rfl
      · exact callStage_tells (numbered _ given.setOwner) fun refused => decide_eq_true refused
      · exact callStage_tells (numbered _ given.getFeatures) fun refused => decide_eq_true refused
    · obtain ⟨queue, _, rfl⟩ := List.mem_map.mp turns
      exact initQueueStage_tells numbered given queue
  have silent : ∀ stage ∈ initStages env nvqs, AllSucceeded stage.undoes := by
    intro stage member
    rcases List.mem_append.mp member with opening | turns
    · simp only [List.mem_cons, List.not_mem_nil, or_false] at opening
      rcases opening with rfl | rfl <;> exact nothing
    · obtain ⟨queue, _, rfl⟩ := List.mem_map.mp turns
      simp [initQueueStage, AllSucceeded]
  refine allSucceeded_append.mpr ⟨allSucceeded_of_zero tells (.inl silent) zero, ?_⟩
  split
  · exact cleanup
  · exact nothing

end Devices

/-! ### Failures without a number -/

section Converse

variable {backend : Backend}

def queueWith (reply : CallReply) : StartAnswers :=
  { willingQueue with
    setVringNum := reply
    setVringBase := reply
    setVringAddr := reply
    setVringKick := reply
    getVringBase := reply }

def startWith (reply : CallReply) : StartEnv where
  ackedFeatures := 0
  setFeatures := reply
  setMemTable := reply
  queue := fun _ => queueWith reply
  logAddress := 0x7e0000000000
  setLogBase := reply

def initQueueWith (reply : CallReply) : InitAnswers := ⟨⟨0, 0⟩, 20, reply⟩

def initWith (reply : CallReply) : InitEnv where
  setBackendType := 0
  devfd := 3
  backendInit := ⟨0, 0⟩
  setOwner := reply
  getFeatures := reply
  queue := fun _ => initQueueWith reply
  errnoAfterCleanup := id
  errnoAfterCleanup_ne_zero := fun _ nonzero => nonzero

theorem queueWith_from {reply : CallReply} (given : backend reply) :
    (queueWith reply).From backend :=
  ⟨given, given, given, given, given⟩

section Unnumbered

variable {reply : CallReply} (failed : reply.ret < 0) (unnumbered : reply.errno = 0)

include failed unnumbered

theorem vhostVirtqueueInit_unnumbered (queue : Nat) :
    vhostVirtqueueInit queue (initQueueWith reply) =
      ([.notifierInit queue, .call (.setVringCall ⟨.ofNat queue, 20⟩) reply,
        .notifierCleanup queue], 0) := by
  simp [vhostVirtqueueInit, initQueueStages, initQueueWith, trace, traceFrom, failed.ne,
    CallReply.negErrno, unnumbered]

theorem vhostVirtqueueStart_unnumbered (enableLog : Bool) (queue : Nat) :
    vhostVirtqueueStart enableLog queue (queueWith reply) =
      ([.call (.setVringNum ⟨.ofNat queue, 256⟩) reply], 0) := by
  simp [vhostVirtqueueStart, queueStages, queueWith, willingQueue, trace, traceFrom, failed.ne,
    CallReply.negErrno, unnumbered]

/-- The features are taken as set, and the refused table ends the start with zero. -/
theorem vhostDevStart_unnumbered (dev : VhostDev) :
    (vhostDevStart (startWith reply) dev).code = 0 ∧
      (vhostDevStart (startWith reply) dev).dev.memory.started = false ∧
      .call .setMemTable reply ∈ (vhostDevStart (startWith reply) dev).events ∧
      .abort ∉ (vhostDevStart (startWith reply) dev).events := by
  simp [vhostDevStart, startStages, startWith, featuresStage, memTableStage, vhostDevSetFeatures,
    trace, traceFrom, failed, CallReply.negErrno, unnumbered, VhostDev.setStarted]

theorem vhostDevInit_unnumbered (nvqs : Nat) :
    vhostDevInit (initWith reply) nvqs = ([.call .setOwner reply, .backendCleanup], 0) := by
  simp [vhostDevInit, initStages, initWith, trace, traceFrom, failed, CallReply.negErrno,
    unnumbered]

end Unnumbered

theorem ReportsVirtqueueInit.numbers (reports : ReportsVirtqueueInit backend) :
    backend.NumbersFailures := by
  intro reply given failed unnumbered
  have succeeded := reports 0 (initQueueWith reply) given
  rw [vhostVirtqueueInit_unnumbered failed unnumbered] at succeeded
  exact absurd (succeeded rfl _ reply (List.mem_cons_of_mem _ List.mem_cons_self))
    (not_le.mpr failed)

theorem ReportsVirtqueueStart.numbers (reports : ReportsVirtqueueStart backend) :
    backend.NumbersFailures := by
  intro reply given failed unnumbered
  have succeeded := reports false 0 (queueWith reply) (queueWith_from given)
  rw [vhostVirtqueueStart_unnumbered failed unnumbered] at succeeded
  exact absurd (succeeded rfl _ reply List.mem_cons_self) (not_le.mpr failed)

theorem ReportsDevStart.numbers (reports : ReportsDevStart backend) : backend.NumbersFailures := by
  intro reply given failed unnumbered
  obtain ⟨zero, _, called, returned⟩ :=
    vhostDevStart_unnumbered failed unnumbered (stoppedDev 0 false)
  have succeeded := reports (startWith reply) (stoppedDev 0 false)
    ⟨given, given, fun _ => queueWith_from given, given⟩ returned zero
  exact absurd (succeeded _ reply called) (not_le.mpr failed)

theorem ReportsDevInit.numbers (reports : ReportsDevInit backend) : backend.NumbersFailures := by
  intro reply given failed unnumbered
  have succeeded := reports (initWith reply) 0 ⟨given, given, fun _ => given⟩
  rw [vhostDevInit_unnumbered failed unnumbered] at succeeded
  exact absurd (succeeded rfl _ reply List.mem_cons_self) (not_le.mpr failed)

end Converse

/-- Each of the four functions returns zero only after calls that succeeded exactly for the
backends whose failed calls leave an error number. -/
theorem vhostCalls_reported_iff (backend : Backend) :
    (ReportsVirtqueueInit backend ↔ backend.NumbersFailures) ∧
      (ReportsVirtqueueStart backend ↔ backend.NumbersFailures) ∧
      (ReportsDevStart backend ↔ backend.NumbersFailures) ∧
      (ReportsDevInit backend ↔ backend.NumbersFailures) :=
  ⟨⟨ReportsVirtqueueInit.numbers, Backend.NumbersFailures.virtqueueInit⟩,
    ⟨ReportsVirtqueueStart.numbers, Backend.NumbersFailures.virtqueueStart⟩,
    ⟨ReportsDevStart.numbers, Backend.NumbersFailures.devStart⟩,
    ⟨ReportsDevInit.numbers, Backend.NumbersFailures.devInit⟩⟩

/-! ### The two backends -/

/-- `vhost_kernel_call`: a failed `ioctl` stores an error number. -/
def kernelBackend : Backend := fun reply => reply.ret < 0 → reply.errno ≠ 0

/-- The reply of `vhost_user_call`, from `errno` before the call and after `sendmsg`. A failed
send is answered with zero as well. -/
def vhostUserReply (control : Int) (blocks : List RAMBlock) (stale : ByteImage) (call : VhostCall)
    (before after : Nat) : Option CallReply :=
  match vhostUserCall control blocks stale call with
  | .refused => some ⟨-1, before⟩
  | .sent _ => some ⟨0, after⟩
  | .overrun => none

def userBackend : Backend := fun reply =>
  ∃ control blocks stale call before after,
    vhostUserReply control blocks stale call before after = some reply

theorem kernelBackend_numbers : kernelBackend.NumbersFailures := fun _ given => given

/-- Over the kernel, the four functions report every failed call. -/
theorem kernelBackend_reports :
    ReportsVirtqueueInit kernelBackend ∧ ReportsVirtqueueStart kernelBackend ∧
      ReportsDevStart kernelBackend ∧ ReportsDevInit kernelBackend :=
  ⟨kernelBackend_numbers.virtqueueInit, kernelBackend_numbers.virtqueueStart,
    kernelBackend_numbers.devStart, kernelBackend_numbers.devInit⟩

theorem userBackend_refused (errno : Nat) : userBackend ⟨-1, errno⟩ :=
  ⟨-1, [], fun _ => 0, .setMemTable, errno, errno, rfl⟩

theorem userBackend_not_numbers : ¬ userBackend.NumbersFailures := by
  intro numbered
  exact numbered ⟨-1, 0⟩ (userBackend_refused 0) (by decide) rfl

/-- On a lost connection, with `errno` zero, no function reports the failed calls. A start returns
zero for a device that is not started. -/
theorem userBackend_unreported :
    ¬ ReportsVirtqueueInit userBackend ∧ ¬ ReportsVirtqueueStart userBackend ∧
      ¬ ReportsDevStart userBackend ∧ ¬ ReportsDevInit userBackend ∧
      (vhostDevStart (startWith ⟨-1, 0⟩) (stoppedDev 2 false)).code = 0 ∧
      (vhostDevStart (startWith ⟨-1, 0⟩) (stoppedDev 2 false)).dev.memory.started = false := by
  have started := vhostDevStart_unnumbered (show (⟨-1, 0⟩ : CallReply).ret < 0 by decide) rfl
    (stoppedDev 2 false)
  exact ⟨fun reports => userBackend_not_numbers reports.numbers,
    fun reports => userBackend_not_numbers reports.numbers,
    fun reports => userBackend_not_numbers reports.numbers,
    fun reports => userBackend_not_numbers reports.numbers, started.1, started.2.1⟩

end VhostUser.Qemu.DevStages
