import VhostUser.Lib.Machine
import VhostUser.Lib.TimerList

/-!
Contract: the reconnection timers of vhost-user netdevs (`net_vhost_user_init` and
the end of `vhost_user_timer_handler` in `net/vhost-user.c`, on the timer list of
`qemu-timer.c`).

The timer of the netdev that was created as number `s` is timer `s`. The variable
`vhost_user_timer` is one for the whole file, and the handler reschedules the timer
that it points to, whichever timer has expired.

Owns: when the timer of every netdev is pending between two runs of the handler.

Does not own: what the handler does to the link before it reschedules (`Reconnect`).
-/

namespace VhostUser.Qemu.NetTimer

open VhostUser.Lib

def scaleMs : Int := 1000000

def vhostUserTimeout : Int := 1000

structure NetTimers where
  timers : TimerList
  netdevs : Nat
  vhostUserTimer : Option Nat

def qemuClockGetMs (clock : Int) : Int := clock.tdiv scaleMs

def timerMod (timers : TimerList) (timer : Nat) (expireTime : Int) : TimerList :=
  timers.modNs timer (expireTime * scaleMs)

def NetTimers.Pending (state : NetTimers) (s : Nat) : Prop :=
  s ∈ state.timers.active ∧ state.timers.Pending s

def netVhostUserInit (clock : Int) (state : NetTimers) : NetTimers where
  netdevs := state.netdevs + 1
  vhostUserTimer := some state.netdevs
  timers := timerMod state.timers state.netdevs (qemuClockGetMs clock + vhostUserTimeout)

/-- The end of `vhost_user_timer_handler`. A null `vhost_user_timer` is a fault. -/
def vhostUserTimerHandler (clock : Int) (state : NetTimers) : Option NetTimers :=
  state.vhostUserTimer.map fun timer =>
    { state with timers := timerMod state.timers timer (qemuClockGetMs clock + vhostUserTimeout) }

/-- A turn of the loop of `timerlist_run_timers`: the first timer, if it has expired at `current`,
and its handler at `clock`. -/
def timerlistRunTimer (current clock : Int) (state : NetTimers) : Option NetTimers :=
  (state.timers.popExpired current).bind fun fired =>
    vhostUserTimerHandler clock { state with timers := fired.2 }

inductive TimerAction where
  | init (clock : Int)
  | runTimer (current clock : Int)
deriving DecidableEq, Repr

def timerMachine : Machine NetTimers TimerAction where
  start state := state = ⟨.empty, 0, none⟩
  step state
    | .init clock => some (netVhostUserInit clock state)
    | .runTimer current clock => timerlistRunTimer current clock state

def NewestExpires (state : NetTimers) : TimerAction → Prop
  | .init _ => True
  | .runTimer _ _ => state.timers.active.head? = state.vhostUserTimer

instance (state : NetTimers) : (action : TimerAction) → Decidable (NewestExpires state action)
  | .init _ => .isTrue trivial
  | .runTimer _ _ => inferInstanceAs (Decidable (_ = _))

/-- A run of the handler reschedules the timer of its netdev and no other. -/
structure Rescheduled (clock : Int) (state next : NetTimers) (s : Nat) : Prop where
  own : next.timers.expireTime s = max ((qemuClockGetMs clock + vhostUserTimeout) * scaleMs) 0
  others : ∀ other, other ≠ s → next.timers.expireTime other = state.timers.expireTime other

/-! ### Runs -/

structure AllPending (state : NetTimers) : Prop where
  consistent : state.timers.Consistent
  pending : ∀ s < state.netdevs, state.timers.Pending s

section Steps

variable {state next : NetTimers} {action : TimerAction} {current clock : Int}

theorem handler_eq (result : vhostUserTimerHandler clock state = some next) :
    ∃ timer, state.vhostUserTimer = some timer ∧ next = { state with
      timers := timerMod state.timers timer (qemuClockGetMs clock + vhostUserTimeout) } := by
  obtain ⟨timer, pointer, rfl⟩ := Option.map_eq_some_iff.mp result
  exact ⟨timer, pointer, rfl⟩

theorem runTimer_eq {fired : Nat × TimerList}
    (popped : state.timers.popExpired current = some fired)
    (result : timerlistRunTimer current clock state = some next) :
    ∃ timer, state.vhostUserTimer = some timer ∧ next = { state with
      timers := timerMod fired.2 timer (qemuClockGetMs clock + vhostUserTimeout) } := by
  rw [timerlistRunTimer, popped, Option.bind_some] at result
  exact handler_eq result

theorem runTimer_rescheduled {fired : Nat × TimerList}
    (newest : state.timers.active.head? = state.vhostUserTimer)
    (popped : state.timers.popExpired current = some fired)
    (result : timerlistRunTimer current clock state = some next) :
    Rescheduled clock state next fired.1 := by
  obtain ⟨timer, pointer, rfl⟩ := runTimer_eq popped result
  obtain ⟨first, left⟩ := fired
  obtain ⟨rest, active, -, rfl⟩ := TimerList.popExpired_eq popped
  rw [active, List.head?_cons, pointer, Option.some.injEq] at newest
  subst newest
  refine ⟨TimerList.modNs_expireTime_self, fun other differ => ?_⟩
  exact (TimerList.modNs_expireTime_of_ne differ).trans (Function.update_of_ne differ _ _)

theorem AllPending.init (all : AllPending state) : AllPending (netVhostUserInit clock state) := by
  refine ⟨all.consistent.modNs _ _, fun s created => ?_⟩
  by_cases newest : s = state.netdevs
  · subst newest
    exact TimerList.modNs_pending
  have older : s < state.netdevs := Nat.lt_of_le_of_ne (Nat.le_of_lt_succ created) newest
  have before : 0 ≤ state.timers.expireTime s := all.pending s older
  change 0 ≤ (state.timers.modNs state.netdevs _).expireTime s
  rwa [TimerList.modNs_expireTime_of_ne newest]

theorem AllPending.runTimer (all : AllPending state)
    (newest : state.timers.active.head? = state.vhostUserTimer)
    (result : timerlistRunTimer current clock state = some next) : AllPending next := by
  obtain ⟨fired, popped, -⟩ := Option.bind_eq_some_iff.mp result
  have rescheduled := runTimer_rescheduled newest popped result
  obtain ⟨timer, -, rfl⟩ := runTimer_eq popped result
  refine ⟨(all.consistent.popExpired popped).modNs _ _, fun s created => ?_⟩
  rw [TimerList.Pending]
  by_cases own : s = fired.1
  · rw [own, rescheduled.own]
    omega
  · rw [rescheduled.others s own]
    exact all.pending s created

theorem AllPending.step (all : AllPending state) (allowed : NewestExpires state action)
    (taken : timerMachine.step state action = some next) : AllPending next := by
  cases action with
  | init clock =>
    cases taken
    exact all.init
  | runTimer current clock => exact all.runTimer allowed taken

/-- In every run in which only the newest timer expires, every timer is pending between two runs
of the handler, and each run reschedules its own. -/
theorem newestExpires_pending (reached : timerMachine.Reached NewestExpires state) :
    (∀ s < state.netdevs, state.Pending s) ∧
      ∀ current clock fired next, NewestExpires state (.runTimer current clock) →
        state.timers.popExpired current = some fired →
        timerlistRunTimer current clock state = some next →
        Rescheduled clock state next fired.1 := by
  have initially : ∀ start, start = ⟨.empty, 0, none⟩ → AllPending start := by
    rintro start rfl
    exact ⟨TimerList.empty_consistent, fun s created => absurd created (Nat.not_lt_zero s)⟩
  have all : AllPending state := reached.invariant initially fun _ _ _ before allowed taken =>
    before.step allowed taken
  refine ⟨fun s created => ?_, fun _ _ _ _ newest popped result =>
    runTimer_rescheduled newest popped result⟩
  have waiting := all.pending s created
  exact ⟨(all.consistent.mem_iff s).mpr waiting, waiting⟩

end Steps

/-! ### Two runs -/

def newestRun : List TimerAction :=
  [.init 0, .runTimer 1000000000 1000300000, .runTimer 2100000000 2100000000, .init 2200000000]

theorem newestExpires_pending_second : ∃ state, timerMachine.Reached NewestExpires state ∧
    state.netdevs = 2 ∧ state.Pending 0 ∧ state.Pending 1 := by
  have ends : (timerMachine.run newestRun ⟨.empty, 0, none⟩).map (·.netdevs) = some 2 := by
    decide +kernel
  have start : timerMachine.Reached NewestExpires ⟨.empty, 0, none⟩ := .start rfl
  obtain ⟨state, reached, netdevs⟩ := start.evaluate (by decide +kernel) ends
  have pending := (newestExpires_pending reached).1
  rw [netdevs] at pending
  exact ⟨state, reached, netdevs, pending 0 (by decide), pending 1 (by decide)⟩

/-- The first of two netdevs loses its timer when it expires. -/
theorem pending_fails_on_second : ¬ ∀ state, timerMachine.Reached Machine.anyAction state →
    ∀ s < state.netdevs, state.Pending s := by
  intro always
  have ends : (timerMachine.run [.init 0, .init 1000000, .runTimer 1000000000 1000000000]
      ⟨.empty, 0, none⟩).map (fun state => (state.netdevs, decide (state.timers.Pending 0))) =
      some (2, false) := by
    decide +kernel
  obtain ⟨state, reached, values⟩ := Machine.evaluate_any ends rfl
  simp only [Prod.mk.injEq, decide_eq_false_iff_not] at values
  exact values.2 (always state reached 0 (by rw [values.1]; decide)).2

end VhostUser.Qemu.NetTimer
