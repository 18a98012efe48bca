import VhostUser.Qemu.QueueFifo

/-!
Contract: with `VIRTIO_RING_F_EVENT_IDX` no interrupt that the driver asked for is
suppressed, however many entries are flushed between two decisions.

The decision compares 16-bit distances. They are the true distances as long as fewer than
`2^15` entries were flushed since the last decision, and `virtqueue_flush` clears
`signalled_used_valid` before that bound is passed: a batch has at most `2^10` entries, so
it cannot jump over the half of the 16-bit numbers in which the distance reads as
negative.
-/

namespace VhostUser.Qemu.Virtio

open VhostUser.Lib

/-! ### 16-bit distances -/

theorem signed_eq (word : UInt16) :
    signed word = if word.toNat < 32768 then (word.toNat : Int) else word.toNat - 65536 := by
  have value : signed word = word.toBitVec.toInt := rfl
  rw [value, BitVec.toInt_eq_toNat_cond]
  simp only [UInt16.toNat_toBitVec]
  split <;> split <;> omega

variable {new old : Nat}

theorem vringNeedEvent_inside {event : Nat} (after : old ≤ event) (before : event < new)
    (close : new < old + 65536) :
    vringNeedEvent (UInt16.ofNat event) (UInt16.ofNat new) (UInt16.ofNat old) = true := by
  have distance := counter_sub (le_of_lt (lt_of_le_of_lt after before)) close
  have remaining := @counter_sub (event + 1) new before (by omega)
  have behind : UInt16.ofNat new - UInt16.ofNat event - 1 =
      UInt16.ofNat new - UInt16.ofNat (event + 1) := by
    rw [← counter_add]
    grind
  rw [vringNeedEvent, behind, decide_eq_true_eq, UInt16.lt_iff_toNat_lt, distance, remaining]
  omega

/-- A flush that takes the distance to half of the 16-bit numbers clears the flag. -/
theorem flush_valid {signalled count : Nat} (flushed : new = old + count)
    (ordered : signalled ≤ old) (close : old < signalled + 32768) (small : count ≤ 1024) :
    signed (UInt16.ofNat new - UInt16.ofNat signalled) <
        (UInt16.ofNat new - UInt16.ofNat old).toNat ↔ signalled + 32768 ≤ new := by
  rw [signed_eq, counter_sub (by omega) (by omega), counter_sub (by omega) (by omega)]
  split <;> omega

/-! ### The machine -/

/-- A queue with the unbounded number of its used entries, now and at the last decision
that looked at the event index. -/
structure Notifier where
  rings : Rings
  vq : VirtQueue
  used : Nat
  evaluated : Option Nat

inductive NotifyAction where
  | flush (count : Nat)
  | notify (notifyOnEmpty : Bool)
  /-- The driver writes its side, where the slot behind the ring is `used_event`. -/
  | driver (availFlags availIdx : UInt16) (availRing : Nat → UInt16)
  | pop (eventIdx : Bool) (map : GuestMap)

namespace Notifier

def flush (count : Nat) (state : Notifier) : Notifier :=
  let flushed := virtqueueFlush ringsAccess state.vq count state.rings
  { state with rings := flushed.1, vq := flushed.2, used := state.used + count }

/-- For an empty queue `vring_notify` may return before it looks at the event index. -/
def notify (notifyOnEmpty : Bool) (state : Notifier) : Notifier :=
  { state with
    vq := (vringNotify ringsAccess notifyOnEmpty true state.vq state.rings).2
    evaluated :=
      if emptyNotifies ringsAccess notifyOnEmpty state.vq state.rings then state.evaluated
      else some state.used }

def pop (eventIdx : Bool) (map : GuestMap) (state : Notifier) : Option Notifier :=
  match virtqueuePop ringsAccess eventIdx map state.vq state.rings with
  | .error _ => none
  | .ok (_, rings, vq) => some { state with rings, vq }

end Notifier

/-- A queue of `num` entries on which nothing was decided yet. -/
def notifyMachine (num : UInt32) : Machine Notifier NotifyAction where
  start state := state.vq.vring.num = num ∧ state.rings.usedIdx = UInt16.ofNat state.used ∧
    state.vq.signalledUsedValid = false ∧ state.evaluated = none
  step state
    | .flush count => some (state.flush count)
    | .notify notifyOnEmpty => some (state.notify notifyOnEmpty)
    | .driver availFlags availIdx availRing =>
      some { state with rings := { state.rings with availFlags, availIdx, availRing } }
    | .pop eventIdx map => state.pop eventIdx map

def FlushesRing (num : UInt32) (_ : Notifier) : NotifyAction → Prop
  | .flush count => count ≤ num.toNat
  | _ => True

/-! ### The invariant -/

/-- The last decision was not later, and while the flag is set fewer than `2^15` entries
were flushed since. -/
structure Tracked (num : UInt32) (state : Notifier) : Prop where
  size : state.vq.vring.num = num
  usedIdx : state.rings.usedIdx = UInt16.ofNat state.used
  valid : state.vq.signalledUsedValid = true → ∃ signalled, state.evaluated = some signalled ∧
    signalled ≤ state.used ∧ state.used < signalled + 32768 ∧
      state.vq.signalledUsed = UInt16.ofNat signalled

section Steps

variable {num : UInt32} {state : Notifier} {notifyOnEmpty : Bool}

section

variable (tracked : Tracked num state)
include tracked

theorem Tracked.flush {count : Nat} (small : count ≤ 1024) : Tracked num (state.flush count) := by
  refine { tracked with usedIdx := ?_, valid := ?_ }
  · simp only [Notifier.flush, virtqueueFlush, ringsAccess, tracked.usedIdx, counter_add]
  intro valid
  simp only [Notifier.flush, virtqueueFlush, ringsAccess, tracked.usedIdx, counter_add] at valid
  rw [ite_eq_iff] at valid
  obtain ⟨stays, wasValid⟩ := valid.resolve_left (by simp)
  obtain ⟨signalled, evaluated, ordered, close, same⟩ := tracked.valid wasValid
  rw [same, flush_valid rfl ordered close small] at stays
  refine ⟨signalled, evaluated, ?_, ?_, same⟩
  · exact ordered.trans (Nat.le_add_right _ _)
  · simp only [Notifier.flush]
    omega

theorem Tracked.notify : Tracked num (state.notify notifyOnEmpty) := by
  rw [Notifier.notify, vringNotify]
  cases emptyNotifies ringsAccess notifyOnEmpty state.vq state.rings with
  | true => exact tracked
  | false => exact ⟨tracked.size, tracked.usedIdx,
      fun _ => ⟨state.used, rfl, le_rfl, by simp, tracked.usedIdx⟩⟩

theorem Tracked.pop {eventIdx : Bool} {map : GuestMap} {next : Notifier}
    (taken : state.pop eventIdx map = some next) : Tracked num next := by
  rw [Notifier.pop] at taken
  split at taken
  · cases taken
  next rings vq returned =>
    cases taken
    rcases virtqueuePop_ok returned with ⟨-, rfl, rfl⟩ | ⟨elem, -, popped⟩
    · exact tracked
    obtain ⟨-, -, -, left, rfl⟩ := popHead_ok popped
    obtain ⟨availEvent, asked⟩ :=
      availEvent_rings eventIdx state.vq (ringsAccess.availIdx state.rings) state.rings
    rw [asked] at left
    subst left
    exact { tracked with }

theorem Tracked.step {action : NotifyAction} {next : Notifier} (small : num.toNat ≤ 1024)
    (allowed : FlushesRing num state action)
    (taken : (notifyMachine num).step state action = some next) : Tracked num next := by
  cases action with
  | flush count =>
    cases taken
    exact tracked.flush (allowed.trans small)
  | notify notifyOnEmpty =>
    cases taken
    exact tracked.notify
  | driver availFlags availIdx availRing =>
    cases taken
    exact { tracked with }
  | pop eventIdx map => exact tracked.pop taken

/-- A decision is for the interrupt if the event is among the entries since the last
decision, or if these are `2^15` or more. -/
theorem Tracked.notifies {signalled : Nat} (evaluated : state.evaluated = some signalled)
    (asked : (∃ event, signalled ≤ event ∧ event < state.used ∧
        state.rings.availRing num.toNat = UInt16.ofNat event) ∨
      32768 ≤ state.used - signalled) :
    (vringNotify ringsAccess notifyOnEmpty true state.vq state.rings).1 = true := by
  rw [vringNotify]
  cases emptyNotifies ringsAccess notifyOnEmpty state.vq state.rings with
  | true => rfl
  | false =>
    cases valid : state.vq.signalledUsedValid with
    | false => rfl
    | true =>
      obtain ⟨last, lastEvaluated, ordered, close, same⟩ := tracked.valid valid
      rw [evaluated, Option.some.injEq] at lastEvaluated
      subst lastEvaluated
      rcases asked with ⟨event, after, before, value⟩ | far
      · have due := vringNeedEvent_inside after before (by omega)
        rw [← value, ← same, ← tracked.usedIdx, ← tracked.size] at due
        exact due
      · omega

theorem Tracked.notifies_first (evaluated : state.evaluated = none) :
    (vringNotify ringsAccess notifyOnEmpty true state.vq state.rings).1 = true := by
  have invalid : state.vq.signalledUsedValid = false := by
    refine Bool.eq_false_iff.mpr fun valid => ?_
    obtain ⟨last, lastEvaluated, -⟩ := tracked.valid valid
    rw [evaluated] at lastEvaluated
    cases lastEvaluated
  rw [vringNotify, invalid]
  cases emptyNotifies ringsAccess notifyOnEmpty state.vq state.rings <;> rfl

end

/-- In every run, `vring_notify` returns true for an event index among the entries since the last
decision, and whenever these are `2^15` or more. -/
theorem flushesRing_notifies (small : num.toNat ≤ 1024)
    (reached : (notifyMachine num).Reached (FlushesRing num) state) (notifyOnEmpty : Bool) :
    (state.evaluated = none →
      (vringNotify ringsAccess notifyOnEmpty true state.vq state.rings).1 = true) ∧
    ∀ signalled, state.evaluated = some signalled →
      ((∃ event, signalled ≤ event ∧ event < state.used ∧
          state.rings.availRing num.toNat = UInt16.ofNat event) ∨
        32768 ≤ state.used - signalled) →
      (vringNotify ringsAccess notifyOnEmpty true state.vq state.rings).1 = true := by
  have initially : ∀ start : Notifier, (notifyMachine num).start start → Tracked num start := by
    rintro start ⟨size, usedIdx, invalid, -⟩
    refine ⟨size, usedIdx, fun valid => ?_⟩
    rw [invalid] at valid
    cases valid
  have tracked : Tracked num state := reached.invariant initially
    fun _ _ _ tracked allowed taken => tracked.step small allowed taken
  exact ⟨tracked.notifies_first, fun signalled => tracked.notifies⟩

end Steps

/-! ### A run -/

def longRun : List NotifyAction := .notify false :: List.replicate 33 (.flush 1024)

def freshNotifier : Notifier := ⟨(freshRun 1024 fun _ _ => ⟨0, 0, 0, 0⟩).rings,
  (freshRun 1024 fun _ _ => ⟨0, 0, 0, 0⟩).vq, 0, none⟩

instance decidableFlushesRing (num : UInt32) (state : Notifier) (action : NotifyAction) :
    Decidable (FlushesRing num state action) := by
  cases action <;> dsimp only [FlushesRing] <;> infer_instance

theorem flushesRing_notifies_long : ∃ state,
    (notifyMachine 1024).Reached (FlushesRing 1024) state ∧ state.evaluated = some 0 ∧
      state.used = 33792 ∧
      (vringNotify ringsAccess false true state.vq state.rings).1 = true := by
  have ends : ((notifyMachine 1024).run longRun freshNotifier).map
      (fun state => (state.evaluated, state.used)) = some (some 0, 33792) := by decide +kernel
  have start : (notifyMachine 1024).Reached (FlushesRing 1024) freshNotifier :=
    .start ⟨rfl, rfl, rfl, rfl⟩
  obtain ⟨state, reached, values⟩ := start.evaluate (by decide +kernel) ends
  obtain ⟨evaluated, used⟩ := Prod.mk.inj values
  refine ⟨state, reached, evaluated, used, ?_⟩
  refine (flushesRing_notifies (by decide) reached false).2 0 evaluated (.inr ?_)
  rw [used]
  decide

end VhostUser.Qemu.Virtio
