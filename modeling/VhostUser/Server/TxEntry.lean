import VhostUser.Server.TxRing

/-!
Contract: what one call of `process_desc`, and one round of the loop of
`process_avail_vring`, does to the server.

`packetOf` is the outcome of walking one chain, `entryEffect` the effect of
one loop round and `runEntries` that of a batch of rounds. The theorems reduce
the monadic functions to these and say which state components a round keeps.
Everything else about the transmit path is derived from here.
-/

namespace VhostUser.Server

/-- Outcome of the chain at `head`: a fault, nothing (the early return of
`process_desc`), or the used length and the payload. -/
def packetOf (server : VHostUser) (table : UInt64) (head : UInt16) :
    Except Fault (Option (UInt32 × List UInt8)) :=
  match gather server table chainFuel head.toUInt32 0 [] with
  | .error fault => .error fault
  | .ok (len, buf) =>
    if len = 0 then .ok none
    else if len.toNat < netHdrSize then .error .outOfBounds
    else .ok (some (len, buf.drop netHdrSize))

def deliver (server : VHostUser) (index : Fin 2) (head : UInt16) (len : UInt32)
    (packet : List UInt8) : VHostUser :=
  let ring := server.vring index
  let uIdx : UInt16 := (ring.lastUsedIdx.toUInt32 % ring.num).toUInt16
  let stored := server.setUsed ring.used
    (usedRingSet (server.mem.used ring.used) uIdx.toNat ⟨head.toUInt32, len⟩)
  let size := len.toUInt64 - netHdrSize.toUInt64
  { stored with buffer := packet, bufferSize := size.toUInt32 }.observe (.received packet)

def entryEffect (index : Fin 2) (server : VHostUser) (head : UInt16) : Except Fault VHostUser :=
  match packetOf server (server.vring index).desc head with
  | .error fault => .error fault
  | .ok none => .ok (advanceRing server index)
  | .ok (some (len, packet)) => .ok (advanceRing (deliver server index head len packet) index)

def runEntries (index : Fin 2) : List UInt16 → VHostUser → Except Fault VHostUser
  | [], server => .ok server
  | head :: rest, server =>
    match entryEffect index server head with
    | .error fault => .error fault
    | .ok next => runEntries index rest next

def nextAIdx (num : UInt32) (aIdx : UInt16) : UInt16 :=
  ((aIdx.toUInt32 + 1) % num).toUInt16

/-- The heads the loop reads in `count` rounds from `aIdx` on. -/
def headsFrom (avail : VringAvail) (num : UInt32) : Nat → UInt16 → List UInt16
  | 0, _ => []
  | count + 1, aIdx => avail.ring aIdx.toNat :: headsFrom avail num count (nextAIdx num aIdx)

def pendingCount (server : VHostUser) (index : Fin 2) : Nat :=
  let ring := server.vring index
  ((server.mem.avail ring.avail).idx - ring.lastAvailIdx).toNat

/-! ### The copy loop -/

variable {fuel : Nat} {len i : UInt32} {server left right : VHostUser} {table : UInt64}
  {index : Fin 2} {buf : List UInt8} {result : UInt32 × List UInt8} {head : UInt16}

theorem gather_lengths (small : len.toNat < ethPacketSize) (filled : buf.length = len.toNat)
    (done : gather server table fuel i len buf = .ok result) :
    result.1.toNat < ethPacketSize ∧ result.2.length = result.1.toNat := by
  induction fuel generalizing i len buf with
  | zero => simp [gather] at done
  | succ fuel ih =>
    simp only [gather] at done
    split at done
    · split at done
      · rename_i fits
        split at done
        · simp at done
        rename_i room
        split at done
        · simp at done
        rename_i data found
        have dataLength := GuestMem.readBytes_length found
        have sum : (buf ++ data).length = (len + (server.mem.desc table i.toNat).len).toNat := by
          rw [List.length_append, filled, dataLength, UInt32.toNat_add]
          unfold ethPacketSize at room
          omega
        split at done
        · exact ih fits sum done
        · cases done
          exact ⟨fits, sum⟩
      · cases done
        exact ⟨small, filled⟩
    · simp at done

/-- The walk reads the descriptor table, the buffers and the memory table only. -/
theorem gather_congr (desc : left.mem.desc = right.mem.desc) (byte : left.mem.byte = right.mem.byte)
    (memory : left.memory = right.memory) (fuel : Nat) (i len : UInt32) (buf : List UInt8) :
    gather left table fuel i len buf = gather right table fuel i len buf := by
  have mapped : left.mem.mapped = right.mem.mapped := by
    funext pointer
    simp [GuestMem.mapped, byte]
  have reads : left.mem.readBytes = right.mem.readBytes := by
    funext pointer count
    induction count generalizing pointer with
    | zero => rfl
    | succ count ih =>
      simp only [GuestMem.readBytes, byte, ih]
  induction fuel generalizing i len buf with
  | zero => rfl
  | succ fuel ih =>
    simp only [gather, desc, mapped, reads, memory, ih]

theorem packetOf_congr (table : UInt64) (head : UInt16) (desc : left.mem.desc = right.mem.desc)
    (byte : left.mem.byte = right.mem.byte) (memory : left.memory = right.memory) :
    packetOf left table head = packetOf right table head := by
  unfold packetOf
  rw [gather_congr desc byte memory]

theorem packetOf_length {packet : List UInt8}
    (found : packetOf server table head = .ok (some (len, packet))) :
    netHdrSize ≤ len.toNat ∧ len.toNat < ethPacketSize ∧
      packet.length = len.toNat - netHdrSize := by
  unfold packetOf at found
  split at found
  · simp at found
  rename_i gathered buf walk
  obtain ⟨small, filled⟩ := gather_lengths (by decide) rfl walk
  split at found
  · simp at found
  split at found
  · simp at found
  rename_i header
  cases found
  refine ⟨by omega, small, ?_⟩
  rw [List.length_drop, filled]

/-! ### One call of `process_desc` -/

/-- The pointers and the size that the transmit path uses are usable. -/
structure RingUsable (server : VHostUser) (index : Fin 2) : Prop where
  num : (server.vring index).num ≠ 0
  avail : server.mem.mapped (server.vring index).avail = true
  used : server.mem.mapped (server.vring index).used = true

theorem payloadSize_gt_iff (small : len.toNat < ethPacketSize) :
    bufferSizeMax < (len.toUInt64 - netHdrSize.toUInt64).toNat ↔ len.toNat < netHdrSize := by
  rw [UInt64.toNat_sub]
  simp only [netHdrSize, ethPacketSize, bufferSizeMax, UInt32.toNat_toUInt64] at *
  simp
  omega

section Call

variable {server : VHostUser} {index : Fin 2} {aIdx : UInt32} {head : UInt16}

/-- A call does what the walk over the chain says. A used ring that is not mapped is a fault of
its own. -/
theorem processDesc_eq (numNe : (server.vring index).num ≠ 0)
    (availMapped : server.mem.mapped (server.vring index).avail = true)
    (headEq : (server.mem.avail (server.vring index).avail).ring aIdx.toNat = head) :
    ∃ other state, (processDesc index aIdx).run server =
      match packetOf server (server.vring index).desc head with
      | .error fault =>
        .error (if server.mem.mapped (server.vring index).used then fault else other) state
      | .ok none => .ok (-1) server
      | .ok (some (len, packet)) =>
        if server.mem.mapped (server.vring index).used then
          .ok 0 (deliver server index head len packet)
        else .error other state := by
  simp only [processDesc, EStateM.run_bind, EStateM.run_get, numNe, if_false,
    deref_run availMapped, headEq, packetOf]
  cases walk : gather server (server.vring index).desc chainFuel head.toUInt32 0 [] with
  | error fault => exact ⟨fault, server, by simp⟩
  | ok result =>
    obtain ⟨len, buf⟩ := result
    by_cases zero : len = 0
    · exact ⟨.badAddress, server, by simp [zero]⟩
    by_cases mapped : server.mem.mapped (server.vring index).used = true
    · have short := payloadSize_gt_iff (gather_lengths (by decide) rfl walk).1
      simp only [zero, if_false, EStateM.run_bind, deref_run mapped, EStateM.run_modify,
        availHandlerServer, short, mapped, if_true]
      by_cases header : len.toNat < netHdrSize
      · exact ⟨.badAddress, _, by simp only [header, if_true]; rfl⟩
      · exact ⟨.badAddress, server, by simp only [header, if_false]; rfl⟩
    · refine ⟨.badAddress, server, ?_⟩
      by_cases header : len.toNat < netHdrSize <;> simp [zero, deref, mapped, header]

theorem processDesc_run (usable : RingUsable server index)
    (headEq : (server.mem.avail (server.vring index).avail).ring aIdx.toNat = head) :
    ∃ state, (processDesc index aIdx).run server =
      match packetOf server (server.vring index).desc head with
      | .error fault => .error fault state
      | .ok none => .ok (-1) server
      | .ok (some (len, packet)) => .ok 0 (deliver server index head len packet) := by
  obtain ⟨_, state, ran⟩ := processDesc_eq usable.num usable.avail headEq
  exact ⟨state, by simpa only [usable.used, if_true] using ran⟩

theorem processDesc_cases {code : Int} {after : VHostUser}
    (returned : (processDesc index aIdx).run server = .ok code after) :
    let head := (server.mem.avail (server.vring index).avail).ring aIdx.toNat
    (packetOf server (server.vring index).desc head = .ok none ∧ after = server) ∨
      ∃ len packet, packetOf server (server.vring index).desc head = .ok (some (len, packet)) ∧
        after = deliver server index head len packet := by
  have numNe : (server.vring index).num ≠ 0 := by
    intro zero
    simp [processDesc, zero] at returned
  have availMapped : server.mem.mapped (server.vring index).avail = true := by
    by_contra unmapped
    simp [processDesc, numNe, deref, unmapped] at returned
  obtain ⟨_, _, ran⟩ := @processDesc_eq server index aIdx _ numNe availMapped rfl
  rw [ran] at returned
  split at returned
  · cases returned
  next outcome =>
    cases returned
    exact .inl ⟨outcome, rfl⟩
  next len packet outcome =>
    split at returned
    · cases returned
      exact .inr ⟨len, packet, outcome, rfl⟩
    · cases returned

end Call
/-! ### Rounds of the loop -/

/-- The components a loop round does not touch, and the counters it moves. -/
structure RoundKeeps (index : Fin 2) (before after : VHostUser) : Prop where
  desc : after.mem.desc = before.mem.desc
  avail : after.mem.avail = before.mem.avail
  byte : after.mem.byte = before.mem.byte
  memory : after.memory = before.memory
  rings : after.vring = Function.update before.vring index
    { before.vring index with
      lastAvailIdx := (before.vring index).lastAvailIdx + 1
      lastUsedIdx := (before.vring index).lastUsedIdx + 1 }

theorem entryEffect_cases {before after : VHostUser}
    (done : entryEffect index before head = .ok after) :
    (packetOf before (before.vring index).desc head = .ok none ∧
        after = advanceRing before index) ∨
      ∃ len packet, packetOf before (before.vring index).desc head = .ok (some (len, packet)) ∧
        after = advanceRing (deliver before index head len packet) index := by
  unfold entryEffect at done
  split at done
  · cases done
  next outcome =>
    cases done
    exact .inl ⟨outcome, rfl⟩
  next len packet outcome =>
    cases done
    exact .inr ⟨len, packet, outcome, rfl⟩

theorem entryEffect_keeps {before after : VHostUser}
    (done : entryEffect index before head = .ok after) : RoundKeeps index before after := by
  obtain ⟨-, rfl⟩ | ⟨len, packet, -, rfl⟩ := entryEffect_cases done
  · exact ⟨rfl, rfl, rfl, rfl, rfl⟩
  · exact ⟨rfl, rfl, rfl, rfl, rfl⟩

namespace RoundKeeps

variable {index : Fin 2} {before after : VHostUser}

theorem ring (keeps : RoundKeeps index before after) : after.vring index =
    { before.vring index with
      lastAvailIdx := (before.vring index).lastAvailIdx + 1
      lastUsedIdx := (before.vring index).lastUsedIdx + 1 } := by
  rw [keeps.rings, Function.update_self]

theorem usable (keeps : RoundKeeps index before after) (usable : RingUsable before index) :
    RingUsable after index := by
  have mapped : after.mem.mapped = before.mem.mapped := by
    funext pointer
    simp [GuestMem.mapped, keeps.byte]
  refine ⟨?_, ?_, ?_⟩
  · rw [keeps.ring]
    exact usable.num
  · rw [keeps.ring, mapped]
    exact usable.avail
  · rw [keeps.ring, mapped]
    exact usable.used

theorem pendingCount_eq (keeps : RoundKeeps index before after)
    (pending : 0 < pendingCount before index) :
    pendingCount after index = pendingCount before index - 1 := by
  unfold pendingCount at *
  rw [keeps.ring, keeps.avail]
  simp only [UInt16.toNat_sub, UInt16.toNat_add] at *
  have := UInt16.toNat_lt (before.vring index).lastAvailIdx
  simp only [UInt16.reduceToNat] at *
  omega

end RoundKeeps

theorem pendingCount_eq_zero_iff (server : VHostUser) (index : Fin 2) :
    pendingCount server index = 0 ↔ (server.vring index).lastAvailIdx =
      (server.mem.avail (server.vring index).avail).idx := by
  unfold pendingCount
  rw [← UInt16.toNat_inj, UInt16.toNat_sub]
  have := UInt16.toNat_lt (server.vring index).lastAvailIdx
  have := UInt16.toNat_lt (server.mem.avail (server.vring index).avail).idx
  omega

theorem pendingCount_lt (server : VHostUser) (index : Fin 2) :
    pendingCount server index < 65536 := UInt16.toNat_lt _

def pendingHeads (server : VHostUser) (index : Fin 2) (aIdx : UInt16) : List UInt16 :=
  let ring := server.vring index
  headsFrom (server.mem.avail ring.avail) ring.num (pendingCount server index) aIdx

theorem pendingHeads_nil (aIdx : UInt16) (drained : pendingCount server index = 0) :
    pendingHeads server index aIdx = [] := by
  simp [pendingHeads, drained, headsFrom]

theorem pendingHeads_cons (aIdx : UInt16) (pending : 0 < pendingCount server index) :
    ∃ rest, pendingHeads server index aIdx =
        (server.mem.avail (server.vring index).avail).ring aIdx.toNat :: rest ∧
      ∀ after, RoundKeeps index server after →
        pendingHeads after index (nextAIdx (server.vring index).num aIdx) = rest := by
  obtain ⟨count, countEq⟩ := Nat.exists_eq_succ_of_ne_zero (Nat.pos_iff_ne_zero.mp pending)
  refine ⟨headsFrom (server.mem.avail (server.vring index).avail) (server.vring index).num count
    (nextAIdx (server.vring index).num aIdx), ?_, ?_⟩
  · simp [pendingHeads, countEq, headsFrom]
  · intro after keeps
    simp only [pendingHeads, keeps.pendingCount_eq pending, countEq, keeps.ring, keeps.avail,
      Nat.succ_sub_one]

theorem availLoop_drained {num : UInt32} (aIdx : UInt16) (count : UInt32)
    (drained : pendingCount server index = 0) :
    (availLoop index num (fuel + 1) aIdx count).run server = .ok count server := by
  rw [pendingCount_eq_zero_iff] at drained
  simp [availLoop, drained]

theorem availLoop_round {server : VHostUser} {index : Fin 2} {num : UInt32} {fuel : Nat}
    (aIdx : UInt16) (count : UInt32) (pending : 0 < pendingCount server index) :
    (availLoop index num (fuel + 1) aIdx count).run server =
      match (processDesc index aIdx.toUInt32).run server with
      | .ok _ middle =>
        (availLoop index num fuel (nextAIdx num aIdx) (count + 1)).run
          (advanceRing middle index)
      | .error fault state => .error fault state := by
  have waiting : (server.vring index).lastAvailIdx ≠
      (server.mem.avail (server.vring index).avail).idx := by
    rw [ne_eq, ← pendingCount_eq_zero_iff]
    omega
  simp only [availLoop, EStateM.run_bind, EStateM.run_get, waiting, if_false, EStateM.run_modify,
    nextAIdx]
  cases (processDesc index aIdx.toUInt32).run server <;> rfl

theorem processDesc_entry (server : VHostUser) (index : Fin 2) (aIdx : UInt32) :
    let head := (server.mem.avail (server.vring index).avail).ring aIdx.toNat
    match (processDesc index aIdx).run server with
    | .ok _ middle => entryEffect index server head = .ok (advanceRing middle index)
    | .error fault _ => RingUsable server index → entryEffect index server head = .error fault := by
  intro head
  unfold entryEffect
  split
  next returned =>
    rcases processDesc_cases returned with ⟨outcome, same⟩ | ⟨len, packet, outcome, same⟩
    · rw [outcome, same]
    · rw [outcome, same]
  next failed =>
    intro usable
    obtain ⟨state, ran⟩ := @processDesc_run server index aIdx head usable rfl
    rw [ran] at failed
    split at failed
    · cases failed
      rfl
    · cases failed
    · cases failed

/-- The loop is the run over the pending heads. Only an unusable pointer makes it fail in another
way. -/
theorem availLoop_run (aIdx : UInt16) (count : UInt32) (enough : pendingCount server index < fuel) :
    match (availLoop index (server.vring index).num fuel aIdx count).run server with
    | .ok total after => total = count + UInt32.ofNat (pendingCount server index) ∧
      runEntries index (pendingHeads server index aIdx) server = .ok after
    | .error fault _ => RingUsable server index →
      runEntries index (pendingHeads server index aIdx) server = .error fault := by
  induction fuel generalizing server aIdx count with
  | zero => omega
  | succ fuel ih =>
    by_cases drained : pendingCount server index = 0
    · rw [pendingHeads_nil aIdx drained, availLoop_drained aIdx count drained, drained]
      simp [runEntries]
    have pending : 0 < pendingCount server index := by omega
    obtain ⟨rest, headsEq, restEq⟩ := pendingHeads_cons aIdx pending
    rw [headsEq, availLoop_round aIdx count pending, runEntries]
    have entry := processDesc_entry server index aIdx.toUInt32
    rw [UInt16.toNat_toUInt32] at entry
    cases ran : (processDesc index aIdx.toUInt32).run server with
    | error fault state =>
      rw [ran] at entry
      intro usable
      rw [entry usable]
    | ok code middle =>
      simp only [ran] at entry
      have keeps := entryEffect_keeps entry
      have countStep : count + 1 + UInt32.ofNat (pendingCount server index - 1) =
          count + UInt32.ofNat (pendingCount server index) := by
        rw [← UInt32.toNat_inj]
        simp only [UInt32.toNat_add, UInt32.toNat_ofNat', UInt32.reduceToNat]
        omega
      have later := ih (nextAIdx (server.vring index).num aIdx) (count + 1)
        (by rw [keeps.pendingCount_eq pending]; omega)
      rw [restEq _ keeps, keeps.pendingCount_eq pending, countStep,
        show ((advanceRing middle index).vring index).num = (server.vring index).num by
          rw [keeps.ring]] at later
      rw [entry]
      dsimp only
      cases loop : (availLoop index (server.vring index).num fuel (nextAIdx
          (server.vring index).num aIdx) (count + 1)).run (advanceRing middle index) with
      | ok total after =>
        rw [loop] at later
        exact later
      | error fault state =>
        rw [loop] at later
        exact fun usable => later (keeps.usable usable)

/-! ### The whole function -/

def enterAvail (server : VHostUser) (index : Fin 2) : VHostUser :=
  server.observe (.entered .processAvailVring index (server.vring index) server.memory)

def firstAIdx (ring : Vring) : UInt16 :=
  (ring.lastAvailIdx.toUInt32 % ring.num).toUInt16

def publishUsed (server : VHostUser) (index : Fin 2) (base : UInt64) : VHostUser :=
  server.setUsed base { server.mem.used base with idx := (server.vring index).lastUsedIdx }

section Function

variable {server after : VHostUser} {index : Fin 2}

/-- The rule for a batch: what holds at its end and goes back over a round holds before it. -/
@[elab_as_elim]
theorem runEntries_induct {motive : List UInt16 → VHostUser → Prop} {heads : List UInt16}
    {server : VHostUser} (done : runEntries index heads server = .ok after) (nil : motive [] after)
    (cons : ∀ head rest server next, entryEffect index server head = .ok next →
      motive rest next → motive (head :: rest) server) : motive heads server := by
  induction heads generalizing server with
  | nil =>
    cases done
    exact nil
  | cons head rest ih =>
    simp only [runEntries] at done
    split at done
    · cases done
    next next effect => exact cons head rest server next effect (ih done)

theorem runEntries_byte {heads : List UInt16} (done : runEntries index heads server = .ok after) :
    after.mem.byte = server.mem.byte := by
  refine runEntries_induct done rfl fun head rest server next effect later => ?_
  rw [later, (entryEffect_keeps effect).byte]

theorem enterAvail_usable (usable : RingUsable server index) :
    RingUsable (enterAvail server index) index := { usable with }

theorem processAvailVring_eq (numNe : (server.vring index).num ≠ 0)
    (availMapped : server.mem.mapped (server.vring index).avail = true) :
    (processAvailVring index).run server =
      match (availLoop index (server.vring index).num 65536
          (firstAIdx (server.vring index)) 0).run (enterAvail server index) with
      | .ok count after =>
        if after.mem.mapped (server.vring index).used then
          .ok count (publishUsed after index (server.vring index).used)
        else .error .badAddress after
      | .error fault state => .error fault state := by
  have entered : (deref (server.vring index).avail).run (enterAvail server index) =
      .ok () (enterAvail server index) := deref_run availMapped
  simp only [processAvailVring, EStateM.run_bind, EStateM.run_get, EStateM.run_set, numNe, if_false]
  rw [show server.observe (.entered .processAvailVring index (server.vring index)
    server.memory) = enterAvail server index from rfl, entered]
  simp only [firstAIdx]
  cases loop : (availLoop index (server.vring index).num 65536
      ((server.vring index).lastAvailIdx.toUInt32 % (server.vring index).num).toUInt16 0).run
      (enterAvail server index) with
  | error fault state => rfl
  | ok count after =>
    by_cases mapped : after.mem.mapped (server.vring index).used = true
    · simp [deref_run mapped, mapped, publishUsed]
    · simp [deref, mapped]

theorem processAvailVring_run (usable : RingUsable server index)
    (done : runEntries index (pendingHeads server index (firstAIdx (server.vring index)))
      (enterAvail server index) = .ok after) :
    (processAvailVring index).run server =
      .ok (UInt32.ofNat (pendingCount server index))
        (publishUsed after index (server.vring index).used) := by
  have usedMapped : after.mem.mapped (server.vring index).used = true := by
    rw [GuestMem.mapped, runEntries_byte done]
    exact usable.used
  have loop := availLoop_run (firstAIdx (server.vring index)) 0
    (pendingCount_lt (enterAvail server index) index)
  rw [show (enterAvail server index).vring = server.vring from rfl] at loop
  rw [processAvailVring_eq usable.num usable.avail]
  split at loop
  next returned =>
    obtain ⟨rfl, ran⟩ := loop
    cases done.symm.trans ran
    simp only [usedMapped, if_true, UInt32.zero_add]
    rfl
  next => cases done.symm.trans (loop (enterAvail_usable usable))

theorem processAvailVring_ok {count : UInt32}
    (returned : (processAvailVring index).run server = .ok count after) :
    RingUsable server index ∧ ∃ drained,
      runEntries index (pendingHeads server index (firstAIdx (server.vring index)))
        (enterAvail server index) = .ok drained ∧
      after = publishUsed drained index (server.vring index).used := by
  have numNe : (server.vring index).num ≠ 0 := by
    intro zero
    simp [processAvailVring, zero] at returned
  have availMapped : server.mem.mapped (server.vring index).avail = true := by
    by_contra unmapped
    simp [processAvailVring, numNe, deref, VHostUser.observe, unmapped] at returned
  rw [processAvailVring_eq numNe availMapped] at returned
  split at returned
  · rename_i total drained loop
    have drains := availLoop_run (firstAIdx (server.vring index)) 0
      (pendingCount_lt (enterAvail server index) index)
    rw [show (enterAvail server index).vring = server.vring from rfl, loop] at drains
    obtain ⟨-, ran⟩ := drains
    split at returned
    · rename_i mapped
      cases returned
      refine ⟨⟨numNe, availMapped, ?_⟩, drained, ran, rfl⟩
      rw [GuestMem.mapped, runEntries_byte ran] at mapped
      exact mapped
    · simp at returned
  · simp at returned

end Function
end VhostUser.Server
