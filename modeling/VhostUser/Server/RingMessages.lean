import VhostUser.Server.TableUpdate

/-!
Contract: which ring a message reaches, and what becomes of the ring's addresses.

Six handlers take a ring index from the message. Five compare it with the number of rings, four of
them as a signed number; `_set_vring_call` compares nothing. `_set_vring_addr` assigns the three
translated addresses one by one and never looks at a failed translation.

Owns: for which messages every access to `vring` is inside the array, and for which the addresses of
a ring change together or not at all.

Does not own: the array accesses of `_set_mem_table` (`MemInstall`).
-/

namespace VhostUser.Server

open VhostUser.Lib VhostUser.Wire

/-! ### Ring indices -/

/-- No array is left while the message is handled. The arrays of `_set_mem_table` are not indexed
by a ring. -/
def RingsInside (msg : VHostUserLocalMsg) (mmap : Mmap) (server : VHostUser) : Prop :=
  ∀ after, (inMsgServer msg mmap).run server = .error .outOfBounds after →
    isRequest .setMemTable msg = true

/-- The ring is not negative as an `int`, and the one handler without a check is handed a ring. -/
def RingNamed (msg : VHostUserLocalMsg) : Request → Prop
  | .setVringNum | .setVringBase | .getVringBase => stateIndex.get msg.request < 2 ^ 31
  | .setVringAddr => addrIndex.get msg.request < 2 ^ 31
  | .setVringCall => vringNoFd (u64.get msg.request) = true ∨ vringIdx (u64.get msg.request) < 2
  | _ => True

section Indices

variable {msg : VHostUserLocalMsg} {server : VHostUser}

theorem assertThat_avoids (condition : Bool) : Avoids Fault.outOfBounds (assertThat condition) :=
  .ite (.pure ()) (.throw (by decide))

theorem deref_avoids (pointer : UInt64) : Avoids Fault.outOfBounds (deref pointer) :=
  .bind .get fun _ => .ite (.pure ()) (.throw (by decide))

/-- A handler that is otherwise safe leaves the array exactly for a negative index. -/
theorem vringAt_overruns_iff {α : Type} {index : Nat} {rest : Fin 2 → ServerM α}
    (safe : ∀ idx, Avoids Fault.outOfBounds (rest idx)) :
    (∃ after, (vringAt index >>= rest).run server = .error .outOfBounds after) ↔
      2 ^ 31 ≤ index := by
  rw [EStateM.run_bind]
  by_cases below : index < 2
  · rw [@vringAt_run server ⟨index, below⟩ index rfl]
    constructor
    · rintro ⟨after, failed⟩
      exact absurd failed (safe _ server after)
    · intro negative
      omega
  · unfold vringAt
    rw [dif_neg below]
    by_cases positive : index < 2 ^ 31
    · rw [if_pos positive]
      constructor
      · rintro ⟨after, failed⟩
        cases failed
      · intro negative
        omega
    · rw [if_neg positive]
      exact ⟨fun _ => Nat.not_lt.mp positive, fun _ => ⟨server, rfl⟩⟩

theorem returnWith_fails_iff {α β : Type} {program : ServerM α} {pair : α → β} {fault : Fault} :
    (∃ after, (program >>= fun value => pure (pair value)).run server = .error fault after) ↔
      ∃ after, program.run server = .error fault after := by
  rw [EStateM.run_bind]
  cases program.run server with
  | ok value middle => simp
  | error other middle => simp

theorem setVringKick_inside :
    ¬ ∃ after, (setVringKick msg).run server = .error .outOfBounds after := by
  intro overruns
  have negative : 2 ^ 31 ≤ vringIdx (u64.get msg.request) := by
    refine (vringAt_overruns_iff fun _ => .ite (.bind (.modify _) fun _ => .pure _) ?_).mp overruns
    exact .bind (assertThat_avoids _) fun _ => .bind (.modify _) fun _ =>
      .ite (.bind (.modify _) fun _ => .bind (.modify _) fun _ => .pure _)
        (.bind (.modify _) fun _ => .pure _)
  have masked : vringIdx (u64.get msg.request) < 256 := Nat.mod_lt _ (by decide)
  omega

theorem setVringCall_overruns_iff :
    (∃ after, (setVringCall msg).run server = .error .outOfBounds after) ↔
      ¬ (vringNoFd (u64.get msg.request) = true ∨ vringIdx (u64.get msg.request) < 2) := by
  by_cases marked : vringNoFd (u64.get msg.request) = true
  · simp [setVringCall, marked]
  rw [Bool.not_eq_true] at marked
  by_cases below : vringIdx (u64.get msg.request) < 2
  · rw [@setVringCall_run server msg ⟨_, below⟩ rfl marked]
    simp [below]
  · simp [setVringCall, marked, below]

theorem msgHandlers_overruns_iff {request : Request} {mmap : Mmap}
    (other : request ≠ .setMemTable) :
    (∃ after, (msgHandlers request msg mmap).run server = .error .outOfBounds after) ↔
      ¬ RingNamed msg request := by
  cases request with
  | setMemTable => exact absurd rfl other
  | setVringNum | setVringBase =>
    exact (returnWith_fails_iff.trans (vringAt_overruns_iff fun _ =>
      .bind (.modify _) fun _ => .pure _)).trans Nat.not_lt.symm
  | getVringBase =>
    exact (vringAt_overruns_iff fun _ => .bind .get fun _ => .pure _).trans Nat.not_lt.symm
  | setVringAddr =>
    exact (returnWith_fails_iff.trans (vringAt_overruns_iff fun _ =>
      .bind (.modify _) fun _ => .bind .get fun _ => .bind (deref_avoids _) fun _ =>
        .bind (.modify _) fun _ => .bind (.modify _) fun _ => .pure _)).trans Nat.not_lt.symm
  | setVringCall => exact returnWith_fails_iff.trans setVringCall_overruns_iff
  | setVringKick =>
    refine iff_of_false ?_ (not_not.mpr trivial)
    exact fun overruns => setVringKick_inside (returnWith_fails_iff.mp overruns)
  | _ =>
    -- the handlers that only log
    refine iff_of_false ?_ (not_not.mpr trivial)
    rintro ⟨after, failed⟩
    cases failed

end Indices

theorem RingsInside.ringNamed {msg : VHostUserLocalMsg} {mmap : Mmap} {server : VHostUser}
    (inside : RingsInside msg mmap server) {request : Request}
    (named : Wire.request.get msg.request = request.code) : RingNamed msg request := by
  by_contra unnamed
  have other : request ≠ .setMemTable := by
    rintro rfl
    exact unnamed trivial
  obtain ⟨after, failed⟩ := (@msgHandlers_overruns_iff msg server request mmap other).mpr unnamed
  rw [← inMsgServer_eq mmap named] at failed
  have table := inside after failed
  simp only [isRequest, named, Request.ofCode?_code, decide_eq_true_eq, Option.some.injEq] at table
  exact other table

/-- Every ring index that a handler uses is that of a ring, exactly when the message names a ring
where nothing is checked and no negative one where the sign is not. -/
theorem inMsgServer_ringsInside_iff (msg : VHostUserLocalMsg) (mmap : Mmap) (server : VHostUser) :
    RingsInside msg mmap server ↔
      ∀ request : Request, Wire.request.get msg.request = request.code → RingNamed msg request := by
  constructor
  · intro inside request named
    exact inside.ringNamed named
  · intro ringNamed after failed
    rcases inMsgServer_cases msg mmap server with ⟨request, named, handled⟩ | rejected
    · by_contra other
      have unnamed : ¬ RingNamed msg request := by
        refine (@msgHandlers_overruns_iff msg server request mmap ?_).mp ⟨after, ?_⟩
        · rintro rfl
          exact other (by simp [isRequest, named])
        · rw [← handled]
          exact failed
      exact unnamed (ringNamed request named)
    · rw [rejected] at failed
      cases failed

/-- A negative ring with a checked index, and a ring that does not exist in a
`VHOST_USER_SET_VRING_CALL` message: both are used as an index. -/
theorem inMsgServer_rings_outside :
    ¬ RingsInside (rawMsg .setVringNum [(stateIndex, 0xffffffff), (stateNum, 256)] [])
        (fun _ => none) (VHostUser.fresh idleMem) ∧
      ¬ RingsInside (rawMsg .setVringCall [(u64, 0xff)] [5]) (fun _ => none)
        (VHostUser.fresh idleMem) := by
  constructor
  · intro inside
    have positive : stateIndex.get (rawMsg .setVringNum [(stateIndex, 0xffffffff), (stateNum, 256)]
        []).request < 2 ^ 31 := @RingsInside.ringNamed _ _ _ inside .setVringNum (by decide +kernel)
    exact absurd positive (by decide +kernel)
  · intro inside
    have ring : vringNoFd (u64.get (rawMsg .setVringCall [(u64, 0xff)] [5]).request) = true ∨
        vringIdx (u64.get (rawMsg .setVringCall [(u64, 0xff)] [5]).request) < 2 :=
      @RingsInside.ringNamed _ _ _ inside .setVringCall (by decide +kernel)
    exact absurd ring (by decide +kernel)

/-! ### The addresses of a ring -/

/-- The user address lies in a region of the table that `mmap` placed and still backs. -/
structure VHostUser.UserLies (server : VHostUser) (addr : UInt64)
    (region : VHostUserLocalMemoryRegion) : Prop where
  active : region ∈ server.memory.active
  placed : region.mmapAddr ≠ 0
  low : region.userspaceAddr.toNat ≤ addr.toNat
  high : addr.toNat < region.userspaceAddr.toNat + region.memorySize.toNat
  backed : server.mem.mapped (region.mmapAddr + (addr - region.userspaceAddr)) = true

def VHostUser.PlacedAt (server : VHostUser) (addr pointer : UInt64) : Prop :=
  ∃ region, server.UserLies addr region ∧ pointer = region.mmapAddr + (addr - region.userspaceAddr)

def VHostUser.AllLie (server : VHostUser) (addrs : RingAddrs) : Prop :=
  (∃ region, server.UserLies addrs.desc region) ∧ (∃ region, server.UserLies addrs.avail region) ∧
    ∃ region, server.UserLies addrs.used region

def VHostUser.AllPlaced (server : VHostUser) (addrs pointers : RingAddrs) : Prop :=
  server.PlacedAt addrs.desc pointers.desc ∧ server.PlacedAt addrs.avail pointers.avail ∧
    server.PlacedAt addrs.used pointers.used

/-- A run that reports an error: a failed assertion or a negative result, in state `after`. -/
def Reports (result : EStateM.Result Fault VHostUser Int) (after : VHostUser) : Prop :=
  result = .error .assertion after ∨ ∃ code, code < 0 ∧ result = .ok code after

/-- `_set_vring_addr` is to set the three pointers and the used index, or to report an error and
leave them and `g_send_lock` as they are. -/
structure AddressesTogether (msg : VHostUserLocalMsg) (server : VHostUser) (idx : Fin 2) :
    Prop where
  set : server.AllLie (msgAddrs msg) → ∃ after, (setVringAddr msg).run server = .ok 0 after ∧
    server.AllPlaced (msgAddrs msg) (after.vring idx).pointers ∧
    (after.vring idx).lastUsedIdx = (server.mem.used (after.vring idx).used).idx
  kept : ¬ server.AllLie (msgAddrs msg) → ∃ after, Reports ((setVringAddr msg).run server) after ∧
    (after.vring idx).pointers = (server.vring idx).pointers ∧
    (after.vring idx).lastUsedIdx = (server.vring idx).lastUsedIdx ∧
    after.gSendLock = server.gSendLock

/-- All or nothing: for the ring that the message names, or nothing at all if it names none. -/
def AllOrNothing (msg : VHostUserLocalMsg) (server : VHostUser) : Prop :=
  (∀ idx : Fin 2, addrIndex.get msg.request = idx → AddressesTogether msg server idx) ∧
    (2 ≤ addrIndex.get msg.request → Reports ((setVringAddr msg).run server) server)

/-- `_map_user_addr` finds the place of each address, and the ring is not a negative number. -/
def AddrsTranslate (msg : VHostUserLocalMsg) (server : VHostUser) : Prop :=
  addrIndex.get msg.request < 2 ^ 31 ∧ (addrIndex.get msg.request < 2 →
    server.AllPlaced (msgAddrs msg) ((msgAddrs msg).translate server.memory))

section Addresses

variable {msg : VHostUserLocalMsg} {server : VHostUser} {idx : Fin 2}

theorem AllPlaced.allLie {addrs pointers : RingAddrs} (placed : server.AllPlaced addrs pointers) :
    server.AllLie addrs := by
  obtain ⟨⟨first, lies, -⟩, ⟨second, liesToo, -⟩, third, liesLast, -⟩ := placed
  exact ⟨⟨first, lies⟩, ⟨second, liesToo⟩, third, liesLast⟩

/-- A message for an existing ring sets all pointers to their translations and returns zero, or
the read of the used index crashes the server. -/
theorem setVringAddr_outcome (named : addrIndex.get msg.request = idx) :
    (server.mem.mapped ((msgAddrs msg).translate server.memory).used = true ∧
      ∃ after, (setVringAddr msg).run server = .ok 0 after ∧
        (after.vring idx).pointers = (msgAddrs msg).translate server.memory ∧
        (after.vring idx).lastUsedIdx = (server.mem.used (after.vring idx).used).idx) ∨
      (server.mem.mapped ((msgAddrs msg).translate server.memory).used = false ∧
        ∃ after, (setVringAddr msg).run server = .error .badAddress after) := by
  cases backed : server.mem.mapped ((msgAddrs msg).translate server.memory).used with
  | true =>
    refine .inl ⟨rfl, _, setVringAddr_run named backed, ?_, ?_⟩
    · simp [VHostUser.setRing, addressed, Vring.pointers, RingAddrs.translate, msgAddrs]
    · simp [VHostUser.setRing, addressed]
  | false =>
    refine .inr ⟨rfl, ?_⟩
    have unmapped : server.mem.mapped (mapUserAddr server.memory
        (.ofNat (addrUsedUserAddr.get msg.request))) = false := backed
    simp [setVringAddr, vringAt_run named, deref, unmapped]

theorem setVringAddr_noRing (beyond : 2 ≤ addrIndex.get msg.request) :
    (setVringAddr msg).run server = .error
      (if addrIndex.get msg.request < 2 ^ 31 then .assertion else .outOfBounds) server := by
  have none : ¬ addrIndex.get msg.request < 2 := Nat.not_lt.mpr beyond
  rw [setVringAddr, EStateM.run_bind, vringAt, dif_neg none]
  by_cases positive : addrIndex.get msg.request < 2 ^ 31
  · rw [if_pos positive, if_pos positive]
    rfl
  · rw [if_neg positive, if_neg positive]
    rfl

theorem setVringAddr_silent (named : addrIndex.get msg.request = idx) (after : VHostUser) :
    ¬ Reports ((setVringAddr msg).run server) after := by
  rcases @setVringAddr_outcome msg server idx named with ⟨-, other, ran, -⟩ | ⟨-, other, crashed⟩
  · rw [ran]
    rintro (failed | ⟨code, negative, returned⟩)
    · cases failed
    · cases returned
      exact absurd negative (by decide)
  · rw [crashed]
    rintro (failed | ⟨code, -, returned⟩)
    · cases failed
    · cases returned

theorem AddressesTogether.placed (together : AddressesTogether msg server idx)
    (named : addrIndex.get msg.request = idx) :
    server.AllPlaced (msgAddrs msg) ((msgAddrs msg).translate server.memory) := by
  by_cases lie : server.AllLie (msgAddrs msg)
  · obtain ⟨after, returned, placed, -⟩ := together.set lie
    rcases @setVringAddr_outcome msg server idx named with
      ⟨-, other, ran, pointers, -⟩ | ⟨-, other, crashed⟩
    · rw [ran] at returned
      cases returned
      rwa [pointers] at placed
    · rw [crashed] at returned
      cases returned
  · obtain ⟨after, reported, -⟩ := together.kept lie
    exact absurd reported (setVringAddr_silent named after)

theorem addressesTogether_of_placed (named : addrIndex.get msg.request = idx)
    (placed : server.AllPlaced (msgAddrs msg) ((msgAddrs msg).translate server.memory)) :
    AddressesTogether msg server idx where
  set := by
    intro _
    obtain ⟨region, lies, pointer⟩ := placed.2.2
    have backed : server.mem.mapped ((msgAddrs msg).translate server.memory).used = true := by
      rw [pointer]
      exact lies.backed
    rcases @setVringAddr_outcome msg server idx named with
      ⟨-, after, ran, pointers, position⟩ | ⟨unbacked, -⟩
    · refine ⟨after, ran, ?_, position⟩
      rw [pointers]
      exact placed
    · rw [backed] at unbacked
      cases unbacked
  kept := fun outside => absurd (AllPlaced.allLie placed) outside

end Addresses

/-- `_set_vring_addr` sets the three addresses of a ring or reports an error and changes nothing,
exactly when the ring is not negative and, for a ring that exists, `_map_user_addr` finds all
three addresses in mapped regions. -/
theorem setVringAddr_allOrNothing_iff (msg : VHostUserLocalMsg) (server : VHostUser) :
    AllOrNothing msg server ↔ AddrsTranslate msg server := by
  constructor
  · rintro ⟨together, otherwise⟩
    constructor
    · by_contra negative
      have beyond : 2 ≤ addrIndex.get msg.request := by omega
      have ran := @setVringAddr_noRing msg server beyond
      rw [if_neg negative] at ran
      rcases otherwise beyond with failed | ⟨code, -, returned⟩
      · rw [ran] at failed
        cases failed
      · rw [ran] at returned
        cases returned
    · intro below
      exact (together ⟨_, below⟩ rfl).placed rfl
  · rintro ⟨positive, placed⟩
    constructor
    · intro idx named
      exact addressesTogether_of_placed named (placed (by omega))
    · intro beyond
      left
      rw [setVringAddr_noRing beyond, if_pos positive]

def oneRegionServer (mem : GuestMem) : VHostUser :=
  { VHostUser.fresh mem with memory := ⟨1, fun _ => ⟨0, 0x10000, 0x10000, 0x100000⟩⟩ }

def txAddrMsg (desc used : Nat) : VHostUserLocalMsg :=
  rawMsg .setVringAddr [(addrIndex, 1), (addrDescUserAddr, desc), (addrAvailUserAddr, 0x12000),
    (addrUsedUserAddr, used)] []

def addrOutcome (msg : VHostUserLocalMsg) (server : VHostUser) :
    Except Fault (Int × RingAddrs × Bool) :=
  match (setVringAddr msg).run server with
  | .ok code after => .ok (code, (after.vring txIdx).pointers, after.gSendLock)
  | .error fault _ => .error fault

/-- A descriptor table outside the region: zero is returned, the third pointer is null and
`g_send_lock` is set. A used ring outside it: the server crashes. -/
theorem setVringAddr_half_changed :
    addrOutcome (txAddrMsg 0x40000 0x13000) (oneRegionServer idleMem) =
        .ok (0, ⟨0, 0x102000, 0x103000⟩, true) ∧
      addrOutcome (txAddrMsg 0x11000 0x40000) (oneRegionServer GuestMem.unmapped) =
        .error .badAddress ∧
      ¬ AllOrNothing (txAddrMsg 0x40000 0x13000) (oneRegionServer idleMem) ∧
      ¬ AllOrNothing (txAddrMsg 0x11000 0x40000) (oneRegionServer GuestMem.unmapped) := by
  have table : ∀ mem, (oneRegionServer mem).memory.active =
      [⟨0, 0x10000, 0x10000, 0x100000⟩] := fun _ => rfl
  have outside : ∀ {mem addr region}, addr = 0x40000 →
      ¬ (oneRegionServer mem).UserLies addr region := by
    rintro mem _ region rfl lies
    have member := lies.active
    rw [table, List.mem_singleton] at member
    subst member
    exact absurd lies.high (by decide)
  have partly : ∀ {msg mem}, addrIndex.get msg.request = txIdx →
      ¬ (oneRegionServer mem).AllLie (msgAddrs msg) → ¬ AllOrNothing msg (oneRegionServer mem) := by
    rintro msg mem named apart ⟨together, -⟩
    obtain ⟨after, reported, -⟩ := (together txIdx named).kept apart
    exact setVringAddr_silent named after reported
  refine ⟨by decide +kernel, by decide +kernel, partly (by decide +kernel) ?_,
    partly (by decide +kernel) ?_⟩
  · rintro ⟨⟨region, lies⟩, -⟩
    exact outside (by decide +kernel) lies
  · rintro ⟨-, -, region, lies⟩
    exact outside (by decide +kernel) lies

end VhostUser.Server
