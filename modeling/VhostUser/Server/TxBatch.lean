import VhostUser.Lib.RingLog
import VhostUser.Server.TxChain

/-!
Contract: what one call of `process_avail_vring` publishes.

The loop increments `last_used_idx` for every avail entry, while the used
entry is written inside `process_desc`, which returns early when its chain
puts no byte into the buffer. The main theorem says for which batches every
published head comes back in its used slot.
-/

namespace VhostUser.Server

open VhostUser.Lib
open VHostUser

/-! ### A batch of rounds -/

/-- What a batch of rounds keeps, and how far it moves the counters. -/
structure BatchKeeps (index : Fin 2) (rounds : Nat) (before after : VHostUser) : Prop where
  desc : after.mem.desc = before.mem.desc
  avail : after.mem.avail = before.mem.avail
  byte : after.mem.byte = before.mem.byte
  memory : after.memory = before.memory
  rings : after.vring = Function.update before.vring index
    { before.vring index with
      lastAvailIdx := (before.vring index).lastAvailIdx + UInt16.ofNat rounds
      lastUsedIdx := (before.vring index).lastUsedIdx + UInt16.ofNat rounds }

variable {index : Fin 2} {after server : VHostUser} {num : UInt32} {step : Nat}

theorem BatchKeeps.ring {rounds : Nat} {before : VHostUser}
    (keeps : BatchKeeps index rounds before after) : after.vring index =
    { before.vring index with
      lastAvailIdx := (before.vring index).lastAvailIdx + UInt16.ofNat rounds
      lastUsedIdx := (before.vring index).lastUsedIdx + UInt16.ofNat rounds } := by
  rw [keeps.rings, Function.update_self]

theorem counter_add_succ (counter : UInt16) (rounds : Nat) :
    counter + 1 + UInt16.ofNat rounds = counter + UInt16.ofNat (rounds + 1) := by
  rw [← UInt16.toNat_inj]
  simp only [UInt16.toNat_add, UInt16.toNat_ofNat', UInt16.reduceToNat]
  omega

section Batch

variable {index other : Fin 2} {server after : VHostUser} {heads : List UInt16} {head : UInt16}

theorem runEntries_keeps (done : runEntries index heads server = .ok after) :
    BatchKeeps index heads.length server after := by
  refine runEntries_induct done ⟨rfl, rfl, rfl, rfl, by simp⟩
    fun head rest server next effect later => ?_
  have first := entryEffect_keeps effect
  refine ⟨by rw [later.desc, first.desc], by rw [later.avail, first.avail],
    by rw [later.byte, first.byte], by rw [later.memory, first.memory], ?_⟩
  rw [later.rings, first.ring, first.rings]
  simp only [Function.update_idem, List.length_cons, counter_add_succ]

def processedPositions (index : Fin 2) (trace : List Observation) : List UInt16 :=
  trace.filterMap fun entry =>
    match entry with
    | .processed ring position => if ring = index then some position else none
    | _ => none

theorem entryEffect_positions (ring : Fin 2) (done : entryEffect index server head = .ok after) :
    processedPositions ring after.trace = processedPositions ring server.trace ++
      if ring = index then [(server.vring index).lastAvailIdx] else [] := by
  obtain ⟨-, rfl⟩ | ⟨len, packet, -, rfl⟩ := entryEffect_cases done
  all_goals
    by_cases same : index = ring
    · simp [advanceRing, observe, setRing, setUsed, deliver, processedPositions, same]
    · simp [advanceRing, observe, setRing, setUsed, deliver, processedPositions, same, Ne.symm same]

theorem runEntries_positions (ring : Fin 2) (done : runEntries index heads server = .ok after) :
    processedPositions ring after.trace = processedPositions ring server.trace ++
      if ring = index then (List.range heads.length).map
        fun step => (server.vring index).lastAvailIdx + UInt16.ofNat step
      else [] := by
  refine runEntries_induct done (by simp) fun head rest server next effect later => ?_
  rw [later, entryEffect_positions ring effect, (entryEffect_keeps effect).ring]
  split
  · simp [List.range_succ_eq_map, Function.comp_def, counter_add_succ]
  · simp

/-! ### Used slots -/

theorem usedSlot_eq (ring : Vring) :
    (ring.lastUsedIdx.toUInt32 % ring.num).toUInt16.toNat =
      ringSlot ring.num.toNat ring.lastUsedIdx.toNat 0 := by
  have small : ring.lastUsedIdx.toNat % ring.num.toNat < 65536 :=
    lt_of_le_of_lt (Nat.mod_le _ _) (UInt16.toNat_lt _)
  simp [ringSlot, Nat.mod_eq_of_lt small]

def slotAfter (server : VHostUser) (table : UInt64) (head : UInt16) (old : VringUsedElem) :
    VringUsedElem :=
  match packetOf server table head with
  | .ok (some (len, _)) => ⟨head.toUInt32, len⟩
  | _ => old

theorem entryEffect_used (done : entryEffect index server head = .ok after) :
    let ring := server.vring index
    let slot := ringSlot ring.num.toNat ring.lastUsedIdx.toNat 0
    after.mem.used ring.used =
      usedRingSet (server.mem.used ring.used) slot
        (slotAfter server ring.desc head ((server.mem.used ring.used).ring slot)) := by
  intro ring slot
  obtain ⟨outcome, rfl⟩ | ⟨len, packet, outcome, rfl⟩ := entryEffect_cases done
  · simp [slotAfter, ring, outcome, usedRingSet, advanceRing, observe, setRing]
  · simp only [slotAfter, ring, outcome, advanceRing, observe, setRing,
      deliver, setUsed, GuestMem.setUsed_used_same, usedSlot_eq, slot]

theorem slotAfter_congr {left right : VHostUser} (keeps : RoundKeeps index left right)
    (table : UInt64) (head : UInt16) (old : VringUsedElem) :
    slotAfter right table head old = slotAfter left table head old := by
  unfold slotAfter
  rw [packetOf_congr table head keeps.desc keeps.byte keeps.memory]

/-- Each used slot of the batch holds what its own head made of it, and no
other slot changes. -/
theorem runEntries_used (divides : (server.vring index).num.toNat ∣ 65536)
    (bounded : heads.length ≤ (server.vring index).num.toNat)
    (done : runEntries index heads server = .ok after) :
    let ring := server.vring index
    let slot := ringSlot ring.num.toNat ring.lastUsedIdx.toNat
    let before := server.mem.used ring.used
    (∀ step head, heads[step]? = some head →
      (after.mem.used ring.used).ring (slot step) =
        slotAfter server ring.desc head (before.ring (slot step))) ∧
    (∀ other, (∀ step < heads.length, other ≠ slot step) →
      (after.mem.used ring.used).ring other = before.ring other) ∧
    (after.mem.used ring.used).idx = before.idx := by
  intro ring slot before
  induction heads generalizing server with
  | nil =>
    cases done
    simp [before]
  | cons head rest ih =>
    simp only [runEntries] at done
    split at done
    · simp at done
    rename_i next effect
    have keeps := entryEffect_keeps effect
    have usedNext := entryEffect_used effect
    have ringNext := keeps.ring
    have slotNext : ∀ step, ringSlot (next.vring index).num.toNat
        (next.vring index).lastUsedIdx.toNat step = slot (step + 1) := by
      intro step
      rw [ringNext]
      exact ringSlot_succ divides _ step
    simp only [List.length_cons] at bounded
    obtain ⟨slots, others, idx⟩ := @ih next
      (by rw [ringNext]; exact divides) (by rw [ringNext]; simp only; omega) done
    simp only [slotNext] at slots others
    rw [ringNext] at slots others idx
    refine ⟨?_, ?_, ?_⟩
    · intro step other found
      cases step with
      | zero =>
        simp only [List.getElem?_cons_zero, Option.some.injEq] at found
        subst found
        rw [others (slot 0) (fun step below =>
          ringSlot_ne (Nat.succ_pos step) (by simp only [ring] at *; omega)), usedNext]
        simp [usedRingSet, slot, ring, before]
      | succ step =>
        simp only [List.getElem?_cons_succ] at found
        have below : step < rest.length := (List.getElem?_eq_some_iff.mp found).1
        have distinct : slot (step + 1) ≠ slot 0 :=
          (ringSlot_ne (Nat.succ_pos step) (by simp only [ring] at *; omega)).symm
        rw [slots step other found, usedNext, slotAfter_congr keeps]
        simp only [usedRingSet]
        rw [Function.update_of_ne distinct]
    · intro other fresh
      rw [others other (fun step below => fresh (step + 1)
        (by simp only [List.length_cons]; omega)), usedNext]
      simp only [usedRingSet]
      rw [Function.update_of_ne (fresh 0 (by simp))]
    · rw [idx, usedNext]
      rfl

/-- A batch returns exactly when none of its chains faults. -/
theorem runEntries_ok_iff :
    (∃ after, runEntries index heads server = .ok after) ↔
      ∀ head ∈ heads, ∃ outcome, packetOf server (server.vring index).desc head = .ok outcome := by
  induction heads generalizing server with
  | nil => simp [runEntries]
  | cons head rest ih =>
    simp only [runEntries, List.forall_mem_cons]
    cases outcome : packetOf server (server.vring index).desc head with
    | error fault => simp [entryEffect, outcome]
    | ok packet =>
      obtain ⟨next, effect⟩ : ∃ next, entryEffect index server head = .ok next := by
        unfold entryEffect
        rw [outcome]
        cases packet with
        | none => exact ⟨_, rfl⟩
        | some delivered => exact ⟨_, rfl⟩
      have keeps := entryEffect_keeps effect
      simp only [effect, ih, Except.ok.injEq, exists_eq', true_and]
      rw [keeps.ring]
      simp only [packetOf_congr _ _ keeps.desc keeps.byte keeps.memory]

end Batch

/-! ### Heads in ring order -/

theorem nextAIdx_toNat (small : num.toNat ≤ 32768) (positive : 0 < num.toNat) (aIdx : UInt16) :
    (nextAIdx num aIdx).toNat = ringSlot num.toNat aIdx.toNat 1 := by
  have aLt := UInt16.toNat_lt aIdx
  have slotLt := ringSlot_lt positive aIdx.toNat 1
  unfold nextAIdx
  unfold ringSlot at *
  rw [UInt32.toNat_toUInt16, UInt32.toNat_mod, UInt32.toNat_add]
  simp only [UInt16.toNat_toUInt32, UInt32.reduceToNat]
  rw [Nat.mod_eq_of_lt (show aIdx.toNat + 1 < 2 ^ 32 by omega), Nat.mod_eq_of_lt (by omega)]

theorem headsFrom_getElem? {avail : VringAvail} (small : num.toNat ≤ 32768)
    (positive : 0 < num.toNat) {count : Nat} {aIdx : UInt16} (inRing : aIdx.toNat < num.toNat)
    (below : step < count) :
    (headsFrom avail num count aIdx)[step]? =
      some (avail.ring (ringSlot num.toNat aIdx.toNat step)) := by
  induction count generalizing aIdx step with
  | zero => omega
  | succ count ih =>
    cases step with
    | zero => simp [headsFrom, ringSlot, Nat.mod_eq_of_lt inRing]
    | succ step =>
      have nextEq := nextAIdx_toNat small positive aIdx
      have nextLt : (nextAIdx num aIdx).toNat < num.toNat := by
        rw [nextEq]
        exact ringSlot_lt positive _ _
      rw [headsFrom, List.getElem?_cons_succ, ih nextLt (by omega), nextEq]
      unfold ringSlot
      rw [Nat.mod_add_mod]
      congr 3
      omega

@[simp] theorem headsFrom_length (avail : VringAvail) (num : UInt32) (count : Nat)
    (aIdx : UInt16) : (headsFrom avail num count aIdx).length = count := by
  induction count generalizing aIdx with
  | zero => rfl
  | succ count ih => simp [headsFrom, ih]

def publishedHead (server : VHostUser) (index : Fin 2) (step : Nat) : UInt16 :=
  let ring := server.vring index
  (server.mem.avail ring.avail).ring (ringSlot ring.num.toNat ring.lastAvailIdx.toNat step)

theorem pendingHeads_getElem? (small : (server.vring index).num.toNat ≤ 32768)
    (positive : 0 < (server.vring index).num.toNat) (below : step < pendingCount server index) :
    (pendingHeads server index (firstAIdx (server.vring index)))[step]? =
      some (publishedHead server index step) := by
  have firstEq : (firstAIdx (server.vring index)).toNat =
      (server.vring index).lastAvailIdx.toNat % (server.vring index).num.toNat := by
    have := Nat.mod_lt (server.vring index).lastAvailIdx.toNat positive
    simp only [firstAIdx, UInt32.toNat_toUInt16, UInt32.toNat_mod, UInt16.toNat_toUInt32]
    omega
  have firstLt : (firstAIdx (server.vring index)).toNat < (server.vring index).num.toNat := by
    rw [firstEq]
    exact Nat.mod_lt _ positive
  unfold pendingHeads
  rw [headsFrom_getElem? small positive firstLt below, firstEq, ringSlot_mod]
  rfl

/-! ### What a call moves -/

structure Drains (index : Fin 2) (before after : VHostUser) : Prop where
  desc : after.mem.desc = before.mem.desc
  byte : after.mem.byte = before.mem.byte
  memory : after.memory = before.memory
  rings : after.vring = Function.update before.vring index
    { before.vring index with
      lastAvailIdx := (before.vring index).lastAvailIdx + UInt16.ofNat (pendingCount before index)
      lastUsedIdx := (before.vring index).lastUsedIdx + UInt16.ofNat (pendingCount before index) }
  positions : processedPositions index after.trace = processedPositions index before.trace ++
    (List.range (pendingCount before index)).map
      fun step => (before.vring index).lastAvailIdx + UInt16.ofNat step
  positionsOther : ∀ other ≠ index,
    processedPositions other after.trace = processedPositions other before.trace

theorem processAvailVring_drains {count : UInt32}
    (returned : (processAvailVring index).run server = .ok count after) :
    Drains index server after := by
  obtain ⟨-, drained, ran, rfl⟩ := processAvailVring_ok returned
  have headsLength : (pendingHeads server index (firstAIdx (server.vring index))).length =
      pendingCount server index := headsFrom_length _ _ _ _
  have keeps := runEntries_keeps ran
  have positions := fun ring => runEntries_positions ring ran
  have entered : ∀ ring, processedPositions ring (enterAvail server index).trace =
      processedPositions ring server.trace := by
    intro ring
    simp [enterAvail, observe, processedPositions]
  simp only [headsLength, entered] at keeps positions
  refine ⟨keeps.desc, keeps.byte, keeps.memory, keeps.rings, ?_, fun other different => ?_⟩
  · exact (positions index).trans (by rw [if_pos rfl]; rfl)
  · exact (positions other).trans (by rw [if_neg different, List.append_nil])

/-! ### What a call publishes -/

/-- One call consumes the pending heads in order and publishes exactly them in the used ring. -/
def PublishesBatch (server : VHostUser) (index : Fin 2) : Prop :=
  let ring := server.vring index
  let avail := server.mem.avail ring.avail
  let pending := (avail.idx - ring.lastAvailIdx).toNat
  ∃ count after, (processAvailVring index).run server = .ok count after ∧
    count.toNat = pending ∧
    processedPositions index after.trace = processedPositions index server.trace ++
      (List.range pending).map (fun step => ring.lastAvailIdx + UInt16.ofNat step) ∧
    (after.vring index).lastAvailIdx = avail.idx ∧
    (after.mem.used ring.used).idx.toNat = (ring.lastUsedIdx.toNat + pending) % 65536 ∧
    ∀ step < pending,
      ((after.mem.used ring.used).ring
        ((ring.lastUsedIdx.toNat + step) % ring.num.toNat)).id =
      (avail.ring ((ring.lastAvailIdx.toNat + step) % ring.num.toNat)).toUInt32

structure RingMapped (server : VHostUser) (index : Fin 2) : Prop where
  usable : RingUsable server index
  desc : server.mem.mapped (server.vring index).desc = true

/-- The head `step` entries on delivers a packet, or puts no byte into the buffer while its used
slot happens to name it already. -/
def HeadComesBack (server : VHostUser) (index : Fin 2) (step : Nat) : Prop :=
  let ring := server.vring index
  let head := publishedHead server index step
  let slot := ringSlot ring.num.toNat ring.lastUsedIdx.toNat step
  HeadDelivers server ring.desc head ∨
    (HeadEmpty server ring.desc head ∧ ((server.mem.used ring.used).ring slot).id = head.toUInt32)

section Publish

variable {server : VHostUser} {index : Fin 2} {step : Nat}

theorem counter_add_pending (server : VHostUser) (index : Fin 2) :
    (server.vring index).lastAvailIdx + UInt16.ofNat (pendingCount server index) =
      (server.mem.avail (server.vring index).avail).idx := by
  have lastLt := UInt16.toNat_lt (server.vring index).lastAvailIdx
  have idxLt := UInt16.toNat_lt (server.mem.avail (server.vring index).avail).idx
  rw [← UInt16.toNat_inj]
  simp only [pendingCount, UInt16.toNat_add, UInt16.toNat_ofNat', UInt16.toNat_sub]
  omega

/-- A head comes back if and only if its chain is walked to the end and its used slot then
names it. -/
theorem comesBack_iff (mapped : RingMapped server index)
    (finite : HeadFinite server (server.vring index).desc (publishedHead server index step)) :
    HeadComesBack server index step ↔
      (∃ outcome, packetOf server (server.vring index).desc (publishedHead server index step) =
        .ok outcome) ∧
      (slotAfter server (server.vring index).desc (publishedHead server index step)
        ((server.mem.used (server.vring index).used).ring
          (ringSlot (server.vring index).num.toNat (server.vring index).lastUsedIdx.toNat
            step))).id = (publishedHead server index step).toUInt32 := by
  unfold HeadComesBack slotAfter
  dsimp only
  rw [← packetOf_some_iff mapped.desc finite, ← packetOf_none_iff mapped.desc finite]
  cases packetOf server (server.vring index).desc (publishedHead server index step) with
  | error fault => simp
  | ok outcome =>
    cases outcome with
    | none => simp
    | some delivered =>
      obtain ⟨len, packet⟩ := delivered
      simp

theorem packetOf_enterAvail (table : UInt64) (head : UInt16) :
    packetOf (enterAvail server index) table head = packetOf server table head :=
  packetOf_congr table head rfl rfl rfl

theorem slotAfter_enterAvail (table : UInt64) (head : UInt16) (old : VringUsedElem) :
    slotAfter (enterAvail server index) table head old = slotAfter server table head old := by
  unfold slotAfter
  rw [packetOf_enterAvail]

theorem drained_slot {drained : VHostUser} (divides : (server.vring index).num.toNat ∣ 65536)
    (numLe : (server.vring index).num.toNat ≤ 32768) (positive : 0 < (server.vring index).num.toNat)
    (bounded : pendingCount server index ≤ (server.vring index).num.toNat)
    (ran : runEntries index (pendingHeads server index (firstAIdx (server.vring index)))
      (enterAvail server index) = .ok drained) (below : step < pendingCount server index) :
    let ring := server.vring index
    let slot := ringSlot ring.num.toNat ring.lastUsedIdx.toNat step
    (drained.mem.used ring.used).ring slot =
      slotAfter server ring.desc (publishedHead server index step)
        ((server.mem.used ring.used).ring slot) := by
  intro ring slot
  have lengthLe : (pendingHeads server index (firstAIdx (server.vring index))).length ≤
      (server.vring index).num.toNat := by
    unfold pendingHeads
    rw [headsFrom_length]
    exact bounded
  obtain ⟨slots, -⟩ :=
    @runEntries_used index (enterAvail server index) drained _ divides lengthLe ran
  rw [← slotAfter_enterAvail]
  exact slots step _ (pendingHeads_getElem? numLe positive below)

/-- One call of `process_avail_vring` publishes its batch if and only if every pending head comes
back. -/
theorem processAvailVring_publishes_iff {exponent : Nat} (server : VHostUser) (index : Fin 2)
    (small : exponent ≤ 15) (power : (server.vring index).num.toNat = 2 ^ exponent)
    (mapped : RingMapped server index)
    (finite : ∀ step < pendingCount server index,
      HeadFinite server (server.vring index).desc (publishedHead server index step))
    (bounded : pendingCount server index ≤ (server.vring index).num.toNat) :
    PublishesBatch server index ↔
      ∀ step < pendingCount server index, HeadComesBack server index step := by
  obtain ⟨divides, numLe, positive⟩ := dvd_of_pow_two small power
  have headsLength : (pendingHeads server index (firstAIdx (server.vring index))).length =
      pendingCount server index := headsFrom_length _ _ _ _
  constructor
  · rintro ⟨count, after, returned, -, -, -, -, published⟩ step below
    obtain ⟨-, drained, ran, rfl⟩ := processAvailVring_ok returned
    have headMem := List.mem_of_getElem? (pendingHeads_getElem? numLe positive below)
    obtain ⟨outcome, walked⟩ := runEntries_ok_iff.mp ⟨drained, ran⟩ _ headMem
    have returnedHead := (packetOf_enterAvail _ _).symm.trans walked
    refine (comesBack_iff mapped (finite step below)).mpr ⟨⟨outcome, returnedHead⟩, ?_⟩
    have slotEq := drained_slot divides numLe positive bounded ran below
    have named := published step below
    simp only [publishUsed, setUsed, GuestMem.setUsed_used_same] at named
    rw [← slotEq]
    exact named
  · intro back
    obtain ⟨drained, ran⟩ : ∃ drained, runEntries index
        (pendingHeads server index (firstAIdx (server.vring index)))
        (enterAvail server index) = .ok drained := by
      rw [runEntries_ok_iff]
      intro head member
      obtain ⟨step, found⟩ := List.getElem?_of_mem member
      have below : step < pendingCount server index := by
        rw [← headsLength]
        exact (List.getElem?_eq_some_iff.mp found).1
      rw [pendingHeads_getElem? numLe positive below, Option.some.injEq] at found
      subst found
      obtain ⟨⟨outcome, walked⟩, -⟩ :=
        (comesBack_iff mapped (finite step below)).mp (back step below)
      exact ⟨outcome, (packetOf_enterAvail _ _).trans walked⟩
    have returned := processAvailVring_run mapped.usable ran
    have drains := processAvailVring_drains returned
    have keeps := runEntries_keeps ran
    rw [headsLength] at keeps
    refine ⟨_, _, returned, ?_, drains.positions, ?_, ?_, ?_⟩
    · have := pendingCount_lt server index
      rw [UInt32.toNat_ofNat']
      exact Nat.mod_eq_of_lt (by omega)
    · rw [drains.rings, Function.update_self]
      exact counter_add_pending server index
    · simp only [publishUsed, setUsed, GuestMem.setUsed_used_same]
      rw [keeps.ring]
      simp only [UInt16.toNat_add, UInt16.toNat_ofNat', pendingCount]
      simp [enterAvail, observe]
    · intro step below
      simp only [publishUsed, setUsed, GuestMem.setUsed_used_same]
      have slotEq := drained_slot divides numLe positive bounded ran below
      have named := ((comesBack_iff mapped (finite step below)).mp (back step below)).2
      rw [← slotEq] at named
      exact named

end Publish

/-! ### One pending head -/

/-- A server whose transmit ring of one entry holds one pending head, and a used slot that still
carries the id `stale`. Every address is mapped. -/
def oneHeadServer (desc : VringDesc) (stale : UInt32) : VHostUser :=
  { fresh ⟨fun _ _ => desc, fun _ => ⟨1, fun _ => 0⟩,
      fun _ => ⟨0, fun _ => ⟨stale, 0⟩⟩, fun _ => some 0⟩ with
    memory := ⟨1, fun _ => ⟨0, 0x100000, 0, 0x100000⟩⟩
    vring := fun _ => ⟨-1, -1, 0x1000, 0x2000, 0x3000, 1, 0, 0⟩ }

theorem oneHeadServer_mapped (desc : VringDesc) (stale : UInt32) (index : Fin 2) :
    RingMapped (oneHeadServer desc stale) index where
  usable := ⟨(by decide : (1 : UInt32) ≠ 0), rfl, rfl⟩
  desc := rfl

theorem oneHeadServer_chain (desc : VringDesc) (last : desc.flags &&& descFNext = 0)
    (stale : UInt32) (table : UInt64) (head : UInt16) :
    Chain (descNext ((oneHeadServer desc stale).mem.desc table)) head.toNat [head.toNat] := by
  refine .stop ?_
  simp [descNext, oneHeadServer, fresh, last]

/-- A full-sized frame comes back. -/
theorem processAvailVring_publishes_frame :
    PublishesBatch (oneHeadServer ⟨0x40, 74, 0, 0⟩ 7) txIdx := by
  have chain := oneHeadServer_chain ⟨0x40, 74, 0, 0⟩ (by decide) 7
  refine (processAvailVring_publishes_iff _ txIdx (Nat.zero_le 15) rfl
    (oneHeadServer_mapped _ _ _) (fun step _ => ⟨_, chain _ _⟩) (by decide)).mpr ?_
  intro step _
  refine .inl ⟨_, chain _ _, ?_, ?_,
    by simp [fitting, oneHeadServer, fresh, totalLen, ethPacketSize, netHdrSize]⟩
  · intro desc member
    obtain rfl : desc = ⟨0x40, 74, 0, 0⟩ := by
      simpa [fitting, oneHeadServer, fresh, ethPacketSize] using member
    decide
  · intro desc found
    simp [fitting, oneHeadServer, fresh, ethPacketSize] at found

/-- A chain without bytes is counted in the used index, but its slot keeps the
stale id. -/
theorem processAvailVring_loses_empty_head :
    ¬ PublishesBatch (oneHeadServer ⟨0x40, 0, 0, 0⟩ 7) txIdx := by
  rintro ⟨count, after, returned, -, -, -, -, published⟩
  obtain ⟨-, drained, ran, rfl⟩ := processAvailVring_ok returned
  have below : 0 < pendingCount (oneHeadServer ⟨0x40, 0, 0, 0⟩ 7) txIdx := by decide
  have slotEq := drained_slot (by decide) (by decide) (by decide) (by decide) ran below
  have stale : (⟨7, 0⟩ : VringUsedElem).id = 0 :=
    (congrArg VringUsedElem.id slotEq).symm.trans (published 0 below)
  exact absurd stale (by decide)

end VhostUser.Server
