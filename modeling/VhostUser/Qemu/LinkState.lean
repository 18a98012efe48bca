import VhostUser.Qemu.Reconnect

/-!
Contract: the link of a vhost-user netdev follows its connection, as long as sends only
fail at requests after which the code makes no request that it asserts to succeed.

A failed send closes the control socket and reports success, and every later request
reports failure. So a send may fail where the next request is checked, or where there
is none. `vhost_user_echo` is the one place that leaves the socket open: a connection
that is found to be broken by the tick itself stays up.
-/

namespace VhostUser.Qemu.Reconnect

open VhostUser.Lib

/-- No request that follows is asserted to succeed. -/
def Harmless : Site → Bool
  | .setVringCall queue => queue = 1
  | .setFeatures | .setMemTable => true
  | .setVringNum queue | .setVringBase queue | .setVringAddr queue => queue = 0
  | .rollback queue => queue = 0
  | .getVringBase queue => queue = 1
  | _ => false

def Input.Safe (input : Input) : Prop := ∀ site, input.fails site = true → Harmless site = true

def SafeSends (_ : Option Netdev) : Action → Prop
  | .init input | .tick input | .setStatus _ _ input | .mask _ input | .commit _ _ input =>
    input.Safe

/-- A commit that finds the rings of a started device mapped elsewhere, or no RAM in a file. -/
def CommitStops (state : Netdev) : Action → Prop
  | .commit ringsKept _ input =>
    state.devStarted = true ∧ (ringsKept = false ∨ input.ramBacked = false)
  | _ => False

theorem Input.Safe.sent {input : Input} (safe : input.Safe) {site : Site}
    (harmful : Harmless site = false) : input.fails site = false := by
  refine Bool.eq_false_iff.mpr fun sends => ?_
  rw [safe site sends] at harmful
  cases harmful

theorem Input.Safe.sent_all {input : Input} (safe : input.Safe) {sites : List Site}
    (harmful : ∀ site ∈ sites, Harmless site = false) :
    ∀ site ∈ sites, input.fails site = false :=
  fun site member => safe.sent (harmful site member)

/-! ### Requests -/

def Dropped (before after : Conn) : Prop :=
  after = before ∨ before.control = true ∧ after = ⟨false, true⟩

section Calls

variable {fails : Site → Bool} {conn : Conn} {site : Site} {sites : List Site} {abort : Abort}

theorem call_closed (closed : conn.control = false) :
    vhostUserCall fails site conn = (false, conn) := by
  rw [vhostUserCall, closed]
  rfl

theorem call_sent (opened : conn.control = true) (sent : fails site = false) :
    vhostUserCall fails site conn = (true, conn) := by
  simp [vhostUserCall, opened, sent]

theorem call_lost (opened : conn.control = true) (lost : fails site = true) :
    vhostUserCall fails site conn = (true, ⟨false, true⟩) := by
  simp [vhostUserCall, opened, lost]

/-- A request that reports success was sent, or lost the connection. -/
theorem call_cases (fails : Site → Bool) (site : Site) (conn : Conn) :
    (conn.control = false ∧ vhostUserCall fails site conn = (false, conn)) ∨
    (conn.control = true ∧ fails site = false ∧ vhostUserCall fails site conn = (true, conn)) ∨
    (conn.control = true ∧ fails site = true ∧
      vhostUserCall fails site conn = (true, ⟨false, true⟩)) := by
  cases opened : conn.control with
  | false => exact .inl ⟨rfl, call_closed opened⟩
  | true =>
    cases lost : fails site with
    | false => exact .inr (.inl ⟨rfl, rfl, call_sent opened lost⟩)
    | true => exact .inr (.inr ⟨rfl, rfl, call_lost opened lost⟩)

theorem tryCalls_closed (closed : conn.control = false) (some : sites ≠ []) :
    tryCalls fails sites conn = (false, conn) := by
  cases sites with
  | nil => exact absurd rfl some
  | cons site rest => simp [tryCalls, call_closed closed]

/-- On an open connection a checked sequence stops behind the request that lost it; only the last
can be lost with a good result. -/
theorem tryCalls_eq (opened : conn.control = true) :
    tryCalls fails sites conn = match sites.dropWhile fun site => !fails site with
      | [] => (true, conn)
      | _ :: rest => (rest.isEmpty, ⟨false, true⟩) := by
  induction sites with
  | nil => rfl
  | cons site rest ih =>
    cases lost : fails site with
    | false => simp [tryCalls, call_sent opened lost, ih, lost]
    | true => cases rest <;> simp [tryCalls, vhostUserCall, opened, lost]

theorem tryCalls_sent (opened : conn.control = true)
    (sent : ∀ site ∈ sites, fails site = false) : tryCalls fails sites conn = (true, conn) := by
  induction sites with
  | nil => rfl
  | cons site rest ih =>
    obtain ⟨here, there⟩ := List.forall_mem_cons.mp sent
    simp [tryCalls, call_sent opened here, ih there]

theorem tryCalls_last {last : Site} (opened : conn.control = true)
    (sent : ∀ site ∈ sites, fails site = false) :
    ∃ after, tryCalls fails (sites ++ [last]) conn = (true, after) ∧ Dropped conn after := by
  rw [tryCalls_eq opened,
    List.dropWhile_append_of_pos fun site member => by simp [sent site member]]
  cases lost : fails last with
  | false => exact ⟨conn, by simp [lost], .inl rfl⟩
  | true => exact ⟨⟨false, true⟩, by simp [lost], .inr ⟨opened, rfl⟩⟩

/-- Asserted requests are checked ones whose failure ends the process. -/
theorem assertCalls_eq (sites : List Site) (conn : Conn) :
    assertCalls abort fails sites conn = if (tryCalls fails sites conn).1 then
      .ok (tryCalls fails sites conn).2 else .error abort := by
  induction sites generalizing conn with
  | nil => rfl
  | cons site rest ih =>
    rw [assertCalls, tryCalls]
    split
    · exact ih _
    · rfl

theorem assertCalls_sent (opened : conn.control = true)
    (sent : ∀ site ∈ sites, fails site = false) :
    assertCalls abort fails sites conn = .ok conn := by
  rw [assertCalls_eq, tryCalls_sent opened sent]
  rfl

theorem assertCalls_last {last : Site} (opened : conn.control = true)
    (sent : ∀ site ∈ sites, fails site = false) :
    ∃ after, assertCalls abort fails (sites ++ [last]) conn = .ok after ∧ Dropped conn after := by
  obtain ⟨after, result, dropped⟩ := @tryCalls_last fails conn sites last opened sent
  exact ⟨after, by rw [assertCalls_eq, result]; rfl, dropped⟩

end Calls

section Paths

variable {input : Input} {conn : Conn} {state : Netdev}

/-- A connection that is accepted gives a device. Only the last request may lose it. -/
theorem vhostNetInit_accepted (safe : input.Safe) (accepted : input.connect = true)
    (clean : conn.failed = false) :
    ∃ after, vhostNetInit input conn = (true, after) ∧ Dropped ⟨true, false⟩ after := by
  have quiet : input.fails .echo = false := safe.sent rfl
  have sent : ∀ site ∈ [Site.setOwner, .getFeatures, .setVringCall 0],
      input.fails site = false := safe.sent_all (by decide)
  obtain ⟨after, result, dropped⟩ := @tryCalls_last input.fails ⟨true, false⟩ _
    (.setVringCall 1) rfl sent
  refine ⟨after, ?_, dropped⟩
  simp only [List.cons_append, List.nil_append] at result
  simp [vhostNetInit, accepted, vhostUserEcho, quiet, clean, result]

/-- The first queue is started with the connection open, or it is not started. -/
theorem startFirst (safe : input.Safe) (opened : conn.control = true) :
    vhostVirtqueueStart input 0 conn = (true, conn) ∨
      (vhostVirtqueueStart input 0 conn).1 = false ∧
        Dropped conn (vhostVirtqueueStart input 0 conn).2 := by
  have kick : input.fails (.setVringKick 0) = false := safe.sent rfl
  have lost : Dropped conn ⟨false, true⟩ := .inr ⟨opened, rfl⟩
  rw [vhostVirtqueueStart, tryCalls_eq opened]
  cases num : input.fails (.setVringNum 0) with
  | true => exact .inr (by simp [num, lost])
  | false =>
    cases base : input.fails (.setVringBase 0) with
    | true =>
      refine .inr ?_
      -- the loss is noticed by the next request, or there is none
      cases input.mapped 0 <;> simp [num, base, lost, tryCalls_closed]
    | false =>
      cases input.mapped 0 with
      | false => exact .inr (by simp [num, base, Dropped])
      | true =>
        cases addr : input.fails (.setVringAddr 0) with
        | true => exact .inr (by simp [num, base, addr, tryCalls_eq opened, lost])
        | false => exact .inl (by simp [num, base, addr, kick, tryCalls_eq opened])

theorem startSecond (safe : input.Safe) (opened : conn.control = true) :
    vhostVirtqueueStart input 1 conn = (input.mapped 1, conn) := by
  have first : tryCalls input.fails [.setVringNum 1, .setVringBase 1] conn = (true, conn) :=
    tryCalls_sent opened (safe.sent_all (by decide))
  have second : tryCalls input.fails [.setVringAddr 1, .setVringKick 1] conn = (true, conn) :=
    tryCalls_sent opened (safe.sent_all (by decide))
  rw [vhostVirtqueueStart, first]
  cases mapped : input.mapped 1 with
  | false => rfl
  | true => exact second

/-- A device that is started on an open connection, or one that is not started. -/
structure Attempt (conn : Conn) (started : Bool) (after : Conn) : Prop where
  dropped : Dropped conn after
  opened : started = true → conn.control = true ∧ after = conn

theorem Attempt.failed {after : Conn} (dropped : Dropped conn after) : Attempt conn false after :=
  ⟨dropped, fun started => by cases started⟩

section

variable (safe : input.Safe)
include safe

theorem startQueues_attempt (opened : conn.control = true) :
    ∃ started after, startQueues input [0, 1] [] conn = .ok (started, after) ∧
      Attempt conn started after := by
  rcases startFirst safe opened with first | ⟨first, dropped⟩
  · have log : input.fails .setLogBase = false := safe.sent rfl
    cases mapped : input.mapped 1 with
    | false =>
      obtain ⟨after, rolled, dropped⟩ := @assertCalls_last input.fails conn [] .wayDown
        (.rollback 0) opened (by simp)
      refine ⟨false, after, ?_, .failed dropped⟩
      rw [List.nil_append] at rolled
      simp [startQueues, first, startSecond safe opened, mapped, rollBack, rolled, Except.map]
    | true =>
      refine ⟨true, conn, ?_, .inl rfl, fun _ => ⟨opened, rfl⟩⟩
      simp [startQueues, first, startSecond safe opened, mapped, call_sent opened log]
  · refine ⟨false, (vhostVirtqueueStart input 0 conn).2, ?_, .failed dropped⟩
    simp [startQueues, first, rollBack, assertCalls, Except.map]

theorem vhostDevStart_attempt (conn : Conn) :
    ∃ started after, vhostDevStart input conn = .ok (started, after) ∧
      Attempt conn started after := by
  rw [vhostDevStart]
  rcases call_cases input.fails .setFeatures conn with ⟨-, call⟩ | ⟨opened, -, call⟩ |
    ⟨opened, -, call⟩
  · exact ⟨false, conn, by simp [call], .failed (.inl rfl)⟩
  · cases backed : input.ramBacked with
    | false => exact ⟨false, conn, by simp [call], .failed (.inl rfl)⟩
    | true =>
      cases lost : input.fails .setMemTable with
      | false =>
        obtain ⟨started, after, result, attempt⟩ := startQueues_attempt safe opened
        exact ⟨started, after, by simp [call, call_sent opened lost, result], attempt⟩
      | true =>
        refine ⟨false, ⟨false, true⟩, ?_, .failed (.inr ⟨opened, rfl⟩)⟩
        simp [call, call_lost opened lost, startQueues, vhostVirtqueueStart, tryCalls_closed,
          rollBack, assertCalls, Except.map]
  · refine ⟨false, ⟨false, true⟩, ?_, .failed (.inr ⟨opened, rfl⟩)⟩
    cases backed : input.ramBacked <;> simp [call, call_closed]

theorem setGuestNotifiers_sent (opened : state.conn.control = true) :
    setGuestNotifiers input state = .ok state := by
  have sent : ∀ site ∈ input.vectors.map Site.mask, input.fails site = false := by
    intro site member
    obtain ⟨queue, -, rfl⟩ := List.mem_map.mp member
    exact safe.sent rfl
  rw [setGuestNotifiers, assertCalls_sent opened sent]
  rfl

theorem vhostNetStopOne_dropped (started : state.devStarted = true)
    (opened : state.conn.control = true) :
    ∃ after, vhostNetStopOne input state = .ok { state with conn := after, devStarted := false } ∧
      Dropped state.conn after := by
  have sent : ∀ site ∈ [Site.netSetBackend 0, .netSetBackend 1, .getVringBase 0],
      input.fails site = false := safe.sent_all (by decide)
  obtain ⟨after, result, dropped⟩ := @assertCalls_last input.fails state.conn _ .wayDown
    (.getVringBase 1) opened sent
  refine ⟨after, ?_, dropped⟩
  simp only [List.cons_append, List.nil_append] at result
  simp [vhostNetStopOne, started, result, Except.map]

theorem vhostNetStart_attempt (stopped : state.devStarted = false) :
    ∃ started after, vhostNetStart input state =
        .ok (started, { state with conn := after, devStarted := started }) ∧
      Attempt state.conn started after := by
  cases notifiers : input.hostNotifiers with
  | false =>
    have same : { state with conn := state.conn, devStarted := false } = state := by
      rw [← stopped]
    refine ⟨false, state.conn, ?_, .failed (.inl rfl)⟩
    rw [same]
    simp [vhostNetStart, vhostNetStartOne, stopped, notifiers, bind, Except.bind]
  | true =>
    obtain ⟨started, after, result, attempt⟩ := vhostDevStart_attempt safe state.conn
    have one : vhostNetStartOne input state =
        .ok (started, { state with conn := after, devStarted := started }) := by
      simp [vhostNetStartOne, stopped, notifiers, result, Except.map]
    cases started with
    | false => exact ⟨false, after, by rw [vhostNetStart, one]; rfl, attempt⟩
    | true =>
      obtain ⟨opened, rfl⟩ := attempt.opened rfl
      have bound : setGuestNotifiers input { state with devStarted := true } =
          .ok { state with devStarted := true } := setGuestNotifiers_sent safe opened
      cases guest : input.guestNotifiers with
      | true =>
        refine ⟨true, state.conn, ?_, attempt⟩
        rw [vhostNetStart, one]
        simp [bind, Except.bind, bindNotifiers, bound, guest]
      | false =>
        obtain ⟨after, stop, dropped⟩ := @vhostNetStopOne_dropped input
          { state with devStarted := true } safe rfl opened
        refine ⟨false, after, ?_, .failed dropped⟩
        rw [vhostNetStart, one]
        simp [bind, Except.bind, bindNotifiers, bound, guest, stop, Except.map]

theorem vhostNetStop_dropped (started : state.devStarted = true)
    (opened : state.conn.control = true) :
    ∃ after, vhostNetStop input state = .ok { state with conn := after, devStarted := false } ∧
      Dropped state.conn after := by
  obtain ⟨after, stop, dropped⟩ := vhostNetStopOne_dropped safe started opened
  exact ⟨after, by rw [vhostNetStop, setGuestNotifiers_sent safe opened]; exact stop, dropped⟩

end

end Paths

/-! ### The invariant -/

theorem off_of_imp {flag other : Bool} (implies : flag = true → other = true)
    (off : other = false) : flag = false := by
  cases flag with
  | false => rfl
  | true => exact (implies rfl).symm.trans off

/-- The device is started on an open connection only, and a failed send left the connection
closed. -/
structure Wired (state : Netdev) : Prop where
  started : state.vhostStarted = state.devStarted
  connected : state.devStarted = true → state.conn.control = true
  opened : state.conn.control = true → state.vhostNet = true
  failed : state.conn.failed = true → state.vhostNet = true ∧ state.conn.control = false

/-- The link is up while there is a device, and the peer's link is the same. -/
structure Synced (state : Netdev) : Prop extends Wired state where
  peer : state.peerLinkDown = state.linkDown
  up : state.vhostNet = true → state.linkDown = false

section Steps

variable {input : Input} {state next : Netdev} {driverOk : Bool}

abbrev Netdev.restarted (state : Netdev) (conn : Conn) (started : Bool) : Netdev :=
  { state with conn, devStarted := started, vhostStarted := started }

/-- A wired netdev whose connection dropped stays wired if it is started on an open
connection only. -/
theorem Wired.dropped (wired : Wired state) {after : Conn} {started : Bool}
    (dropped : Dropped state.conn after) (opened : started = true → after.control = true) :
    Wired (state.restarted after started) := by
  rcases dropped with rfl | ⟨wasOpen, rfl⟩
  · exact ⟨rfl, opened, wired.opened, wired.failed⟩
  · exact ⟨rfl, opened, nofun, fun _ => ⟨wired.opened wasOpen, rfl⟩⟩

theorem virtioNetVhostStatus_wired (safe : input.Safe) (wired : Wired state) :
    ∃ after started, virtioNetVhostStatus input driverOk state =
      .ok (state.restarted after started) ∧ Wired (state.restarted after started) := by
  have unchanged : ∃ after started, (.ok state : Except Abort Netdev) =
      .ok (state.restarted after started) ∧ Wired (state.restarted after started) := by
    have same : state.restarted state.conn state.devStarted = state := by
      have started := wired.started
      cases state
      cases started
      rfl
    exact ⟨state.conn, state.devStarted, by rw [same], wired.dropped (.inl rfl) wired.connected⟩
  rw [virtioNetVhostStatus]
  split
  · exact unchanged
  split
  · exact unchanged
  split
  next stopped =>
    have notStarted : state.devStarted = false := by
      rw [← wired.started]
      simpa using stopped
    obtain ⟨started, after, result, attempt⟩ := @vhostNetStart_attempt input
      { state with vhostStarted := true } safe notStarted
    refine ⟨after, started, by rw [result]; rfl, wired.dropped attempt.dropped fun isStarted => ?_⟩
    obtain ⟨opened, rfl⟩ := attempt.opened isStarted
    exact opened
  next running =>
    have started : state.devStarted = true := by
      rw [← wired.started]
      simpa using running
    obtain ⟨after, result, dropped⟩ := vhostNetStop_dropped safe started (wired.connected started)
    exact ⟨after, false, by rw [result]; rfl, wired.dropped dropped nofun⟩

/-- The link is down after the tick that follows a failed send, and up after a tick at which the
server accepts the connection. -/
structure LinkFollows (input : Input) (state next : Netdev) : Prop where
  down : state.conn.failed = true →
    next.linkDown = true ∧ next.peerLinkDown = true ∧ next.vhostNet = false
  up : state.vhostNet = false → input.connect = true →
    next.linkDown = false ∧ next.peerLinkDown = false ∧ next.vhostNet = true

/-- The tick succeeds and keeps the invariant, and the link follows the connection. -/
def Ticks (input : Input) (state : Netdev) : Prop :=
  ∃ next, vhostUserTimerHandler input state = .ok next ∧ Synced next ∧ LinkFollows input state next

theorem tick_running (safe : input.Safe) (synced : Synced state) (running : state.vhostNet = true) :
    Ticks input state := by
  have linkUp := synced.up running
  have quiet : input.fails .echo = false := safe.sent rfl
  cases opened : state.conn.control with
  | true =>
    refine ⟨{ state with conn := ⟨true, false⟩ }, ?_, ?_, ?_, ?_⟩
    · simp [vhostUserTimerHandler, checkLink, applyLink, running, linkUp, vhostUserStatus,
        vhostUserEcho, opened, quiet]
    · exact ⟨⟨synced.started, fun _ => rfl, fun _ => running, nofun⟩, synced.peer, synced.up⟩
    · exact fun failed => absurd opened (by simp [(synced.failed failed).2])
    · exact fun missing => absurd running (by simp [missing])
  | false =>
    have stopped : state.devStarted = false := off_of_imp synced.connected opened
    have notStarted : state.vhostStarted = false := synced.started.trans stopped
    refine ⟨{ state with
      vhostNet := false, conn := ⟨false, false⟩, linkDown := true, peerLinkDown := true
      linkUp := false, devStarted := false }, ?_, ?_, fun _ => ⟨rfl, rfl, rfl⟩, ?_⟩
    · simp [vhostUserTimerHandler, checkLink, applyLink, running, linkUp, vhostUserStatus,
        vhostUserEcho, opened, virtioNetSetLinkStatus, virtioNetVhostStatus, notStarted,
        Except.map, vhostUserStop]
    · exact ⟨⟨notStarted, nofun, nofun, nofun⟩, rfl, nofun⟩
    · exact fun missing => absurd running (by simp [missing])

theorem Synced.idle (synced : Synced state) (missing : state.vhostNet = false) :
    state.conn.failed = false ∧ state.vhostStarted = false := by
  have closed : state.conn.control = false := off_of_imp synced.opened missing
  have stopped : state.devStarted = false := off_of_imp synced.connected closed
  exact ⟨off_of_imp (fun failed => (synced.failed failed).1) missing, synced.started.trans stopped⟩

theorem LinkFollows.of_intact {next : Netdev} (intact : state.conn.failed = false)
    (up : input.connect = true →
      next.linkDown = false ∧ next.peerLinkDown = false ∧ next.vhostNet = true) :
    LinkFollows input state next := by
  exact ⟨fun failed => absurd intact (by simp [failed]), fun _ => up⟩

theorem vhostUserTimerHandler_intact (intact : state.conn.failed = false) :
    vhostUserTimerHandler input state =
      applyLink input (checkLink input state).1 (checkLink input state).2 := by
  have clean : { state with conn := { state.conn with failed := false } } = state := by
    rw [← intact]
  rw [vhostUserTimerHandler, clean]

theorem tick_refused (synced : Synced state) (missing : state.vhostNet = false)
    (refused : input.connect = false) :
    Ticks input state := by
  obtain ⟨intact, notStarted⟩ := synced.idle missing
  have checked : checkLink input state =
      (true, { state with conn := ⟨false, false⟩, devStarted := false }) := by
    simp [checkLink, missing, vhostUserStart, vhostNetInit, refused, intact]
  have follows (next : Netdev) : LinkFollows input state next := by
    exact .of_intact intact fun accepted => absurd refused (by simp [accepted])
  rw [Ticks, vhostUserTimerHandler_intact intact, checked]
  cases down : state.linkDown with
  | true =>
    refine ⟨{ state with conn := ⟨false, false⟩, devStarted := false, linkDown := true }, rfl,
      ?_, follows _⟩
    exact ⟨⟨notStarted, nofun, nofun, nofun⟩, synced.peer.trans down,
      fun present => absurd missing (by simpa using present)⟩
  | false =>
    refine ⟨{ state with
      vhostNet := false, conn := ⟨false, false⟩, linkDown := true, peerLinkDown := true
      linkUp := false, devStarted := false }, ?_,
      ⟨⟨notStarted, nofun, nofun, nofun⟩, rfl, nofun⟩, follows _⟩
    simp [applyLink, virtioNetSetLinkStatus, virtioNetVhostStatus, missing, Except.map,
      vhostUserStop]

theorem tick_accepted (safe : input.Safe) (synced : Synced state)
    (missing : state.vhostNet = false) (accepted : input.connect = true) :
    Ticks input state := by
  obtain ⟨intact, notStarted⟩ := synced.idle missing
  obtain ⟨after, init, dropped⟩ := vhostNetInit_accepted safe accepted intact
  have checked : checkLink input state =
      (false, { state with vhostNet := true, conn := after, devStarted := false }) := by
    simp [checkLink, missing, vhostUserStart, init]
  have failed : after.failed = true → after.control = false := by
    rcases dropped with rfl | ⟨-, rfl⟩ <;> simp
  rw [Ticks, vhostUserTimerHandler_intact intact, checked]
  cases down : state.linkDown with
  | false =>
    have peer := synced.peer.trans down
    refine ⟨{ state with
      vhostNet := true, conn := after, devStarted := false, linkDown := false }, rfl, ?_,
      .of_intact intact fun _ => ⟨rfl, peer, rfl⟩⟩
    exact ⟨⟨notStarted, nofun, fun _ => rfl, fun lost => ⟨rfl, failed lost⟩⟩, peer, fun _ => rfl⟩
  | true =>
    have wired : Wired { state with
        vhostNet := true, conn := after, devStarted := false, linkDown := false
        peerLinkDown := false, linkUp := true } :=
      ⟨notStarted, nofun, fun _ => rfl, fun lost => ⟨rfl, failed lost⟩⟩
    obtain ⟨conn, started, result, stillWired⟩ :=
      @virtioNetVhostStatus_wired input _ state.driverOk safe wired
    refine ⟨_, ?_, ⟨stillWired, rfl, fun _ => rfl⟩, .of_intact intact fun _ => ⟨rfl, rfl, rfl⟩⟩
    simp only [applyLink, virtioNetSetLinkStatus]
    simp only [Bool.not_false, result]
    rfl

theorem tick_synced (safe : input.Safe) (synced : Synced state) : Ticks input state := by
  cases running : state.vhostNet with
  | true => exact tick_running safe synced running
  | false =>
    cases accepted : input.connect with
    | true => exact tick_accepted safe synced running accepted
    | false => exact tick_refused synced running accepted

theorem request_synced {sites : List Site} (safe : input.Safe)
    (harmful : ∀ site ∈ sites, Harmless site = false) (synced : Synced state) :
    request sites input state = .ok state := by
  rw [request]
  split
  · rfl
  next started =>
    rw [Bool.not_eq_true', Bool.not_eq_false] at started
    rw [assertCalls_sent (synced.connected started) (safe.sent_all harmful)]
    rfl

theorem commitSites_harmful (input : Input) (resize : LogResize) :
    ∀ site ∈ commitSites input resize, Harmless site = false := by
  intro site member
  have known : site = .setLogBase ∨ site = .commit := by
    simp only [commitSites, List.mem_append, List.mem_cons, List.mem_ite_nil_right] at member
    grind
  rcases known with rfl | rfl <;> rfl

/-- Every action of a run succeeds and keeps the invariant, apart from a commit that stops. -/
theorem Synced.step {action : Action} (synced : Synced state)
    (allowed : SafeSends (some state) action) :
    (∃ next, netdevStep state action = .ok next ∧ Synced next) ∨
      CommitStops state action ∧ netdevStep state action = .error .request := by
  cases action with
  | init input => exact .inl ⟨state, rfl, synced⟩
  | tick input =>
    obtain ⟨next, result, after, -⟩ := tick_synced allowed synced
    exact .inl ⟨next, result, after⟩
  | setStatus driverOk vmRunning input =>
    have wired : Wired { state with vmRunning } := { synced with }
    obtain ⟨conn, started, result, stillWired⟩ :=
      @virtioNetVhostStatus_wired input _ driverOk allowed wired
    refine .inl ⟨{ state.restarted conn started with driverOk, vmRunning }, ?_, ?_, synced.peer,
      synced.up⟩
    · rw [netdevStep, setStatus, result]
      rfl
    · exact { stillWired with }
  | mask queue input =>
    exact .inl ⟨state, request_synced allowed (by simp [Harmless]) synced, synced⟩
  | commit ringsKept resize input =>
    rw [netdevStep, vhostCommit]
    split
    next stops =>
      simp only [Bool.and_eq_true, Bool.not_eq_true', Bool.and_eq_false_iff] at stops
      exact .inr ⟨stops, rfl⟩
    · exact .inl ⟨state, request_synced allowed (commitSites_harmful _ _) synced, synced⟩

theorem netVhostUserInit_synced (safe : input.Safe) : Synced (netVhostUserInit input) := by
  cases accepted : input.connect with
  | false =>
    simp only [netVhostUserInit, vhostUserStart, vhostNetInit, accepted, Bool.not_false, if_true]
    exact ⟨⟨rfl, nofun, nofun, nofun⟩, rfl, nofun⟩
  | true =>
    obtain ⟨after, init, dropped⟩ := @vhostNetInit_accepted input ⟨false, false⟩ safe accepted rfl
    simp only [netVhostUserInit, vhostUserStart, init]
    refine ⟨⟨rfl, nofun, fun _ => rfl, fun lost => ⟨rfl, ?_⟩⟩, rfl, fun _ => rfl⟩
    rcases dropped with rfl | ⟨-, rfl⟩
    · cases lost
    · rfl

/-- In every run in which sends fail at harmless requests only, no assertion fails but those of a
commit that cannot send the table, and the link follows the connection. -/
theorem safeSends_linkFollows (reached : reconnectMachine.Reached SafeSends (some state)) :
    (∀ action, SafeSends (some state) action → (∃ next, netdevStep state action = .ok next) ∨
      CommitStops state action ∧ netdevStep state action = .error .request) ∧
      ∀ input next, input.Safe → netdevStep state (.tick input) = .ok next →
        LinkFollows input state next := by
  have initially : ∀ start : Option Netdev, start = none → ∀ netdev ∈ start, Synced netdev := by
    rintro start rfl netdev member
    cases member
  have invariant : ∀ netdev ∈ some state, Synced netdev :=
    reached.invariant initially fun before action after synced allowed taken netdev member => by
      cases member
      cases before with
      | none =>
        cases action with
        | init input =>
          cases taken
          exact netVhostUserInit_synced allowed
        | _ => cases taken
      | some old =>
        obtain ⟨next, result, nextSynced⟩ | ⟨-, stops⟩ := (synced old rfl).step allowed
        · simp only [reconnectMachine, result, Except.toOption, Option.map_some,
            Option.some.injEq] at taken
          rwa [← taken]
        · simp only [reconnectMachine, stops] at taken
          cases taken
  have synced := invariant state rfl
  refine ⟨fun action allowed => ?_, fun input next safe result => ?_⟩
  · obtain ⟨next, result, -⟩ | stops := synced.step allowed
    · exact .inl ⟨next, result⟩
    · exact .inr stops
  · obtain ⟨other, otherResult, -, follows⟩ := tick_synced safe synced
    rw [netdevStep, otherResult, Except.ok.injEq] at result
    exact result ▸ follows

end Steps

/-! ### Runs -/

def inputWith (fails : Site → Bool) : Input :=
  { connect := true, fails, ramBacked := true, mapped := fun _ => true, logEnabled := false
    hostNotifiers := true, guestNotifiers := true, vectors := [] }

theorem inputWith_safe {fails : Site → Bool}
    (harmless : ∀ site, fails site = true → Harmless site = true) : (inputWith fails).Safe :=
  harmless

def lostOnStart : List Action :=
  [.init (inputWith fun _ => false), .tick (inputWith fun _ => false),
    .setStatus true true (inputWith fun site => decide (site = .setFeatures))]

def lostStarting : Netdev :=
  { vhostNet := true, conn := ⟨false, true⟩, devStarted := false, linkDown := false
    peerLinkDown := false, linkUp := true, driverOk := true, vmRunning := true
    vhostStarted := false }

/-- The link goes down on the tick after the lost request, and up on the next. -/
theorem safeSends_linkFollows_lost :
    ∃ state down up, reconnectMachine.Reached SafeSends (some state) ∧
      state.conn.failed = true ∧
      netdevStep state (.tick (inputWith fun _ => false)) = .ok down ∧
      netdevStep down (.tick (inputWith fun _ => false)) = .ok up ∧
      (down.linkDown = true ∧ down.peerLinkDown = true ∧ down.vhostNet = false) ∧
      up.linkDown = false ∧ up.peerLinkDown = false ∧ up.vhostNet = true := by
  have quiet : (inputWith fun _ => false).Safe := inputWith_safe nofun
  have noFeatures : (inputWith fun site => decide (site = .setFeatures)).Safe :=
    inputWith_safe fun site fails => by
      rw [decide_eq_true_eq] at fails
      rw [fails]
      rfl
  have permitted : reconnectMachine.RunAllowed SafeSends lostOnStart none :=
    ⟨quiet, quiet, noFeatures, trivial⟩
  have start : reconnectMachine.Reached SafeSends none := .start rfl
  have ran : reconnectMachine.run lostOnStart none = some (some lostStarting) := by
    decide +kernel
  have lost := start.run permitted ran
  have tick (netdev : Netdev) : SafeSends (some netdev) (.tick (inputWith fun _ => false)) := quiet
  obtain ⟨down, downTaken⟩ := ((safeSends_linkFollows lost).1 _ (tick _)).resolve_right (·.1)
  have downFollows := (safeSends_linkFollows lost).2 _ _ quiet downTaken
  have taken : reconnectMachine.step (some lostStarting) (.tick (inputWith fun _ => false)) =
      some (some down) := by
    simp only [reconnectMachine, downTaken]
    rfl
  have reached := lost.step (tick _) taken
  obtain ⟨up, upTaken⟩ := ((safeSends_linkFollows reached).1 _ (tick _)).resolve_right (·.1)
  have upFollows := (safeSends_linkFollows reached).2 _ _ quiet upTaken
  have isDown := downFollows.down rfl
  exact ⟨lostStarting, down, up, lost, rfl, downTaken, upTaken, isDown, upFollows.up isDown.2.2 rfl⟩

def lostOnCommit : List Action :=
  [.init (inputWith fun _ => false), .setStatus true true (inputWith fun _ => false),
    .commit true .keep (inputWith fun _ => true)]

def lostCommitting : Netdev :=
  { lostStarting with devStarted := true, vhostStarted := true }

def lostOnEcho : List Action :=
  [.init (inputWith fun _ => false), .tick (inputWith fun _ => true)]

def lostEchoing : Netdev :=
  { lostStarting with conn := ⟨true, true⟩, driverOk := false, vmRunning := false }

/-- The link stays up when the echo of a tick fails; stopping a device whose connection was lost
trips an assertion. -/
theorem linkFollows_fails_without_server :
    (¬ ∀ state, reconnectMachine.Reached Machine.anyAction (some state) →
      ∀ input next, netdevStep state (.tick input) = .ok next → LinkFollows input state next) ∧
    ¬ ∀ state, reconnectMachine.Reached Machine.anyAction (some state) →
      ∀ input, netdevStep state (.tick input) ≠ .error .wayDown := by
  have start : reconnectMachine.Reached Machine.anyAction none := .start rfl
  constructor
  · intro always
    have ran : reconnectMachine.run lostOnEcho none = some (some lostEchoing) := by
      decide +kernel
    have reached := start.run (Machine.runAllowed_any _ _) ran
    have follows := always _ reached (inputWith fun _ => true) _ rfl
    exact Bool.noConfusion (follows.down rfl).1
  · intro never
    have ran : reconnectMachine.run lostOnCommit none = some (some lostCommitting) := by
      decide +kernel
    have reached := start.run (Machine.runAllowed_any _ _) ran
    exact never _ reached (inputWith fun _ => false) (by decide +kernel)

end VhostUser.Qemu.Reconnect
