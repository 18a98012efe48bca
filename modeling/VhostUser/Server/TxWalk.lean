import Mathlib.Data.Finset.Prod
import VhostUser.Lib.Fallible
import VhostUser.Server.TxPacket

/-!
Contract: the copy loop of `process_desc` over an arbitrary descriptor table.

The loop is a walk over pairs of a descriptor index and the number of bytes copied so far. It goes
on while the buffers are readable, the total stays below `ETH_PACKET_SIZE` and there is a link. The
total never shrinks, so a walk that does not end goes round descriptors without bytes.

Owns: when the loop ends, and when its length arithmetic is exact.

Does not own: where the buffers lie (`TxAccess`).
-/

namespace VhostUser.Server

open VhostUser.Lib

/-! ### The walk -/

section Definitions

variable (server : VHostUser) (table : UInt64)

def bufferReadable (desc : VringDesc) : Bool :=
  (server.mem.readBytes (mapGuestAddr server.memory desc.addr) desc.len.toNat).isSome

/-- The next turn of the loop, from descriptor `i` with `total` bytes copied. -/
def walkNext : Nat × Nat → Option (Nat × Nat)
  | (i, total) =>
    let desc := server.mem.desc table i
    if total + desc.len.toNat < ethPacketSize ∧ bufferReadable server desc = true then
      (descNext (server.mem.desc table) i).map fun successor =>
        (successor, total + desc.len.toNat)
    else none

/-- What the loop comes to in a turn that is the last one. -/
def walkEnd : Nat × Nat → Except Fault Nat
  | (i, total) =>
    let desc := server.mem.desc table i
    if total + desc.len.toNat < ethPacketSize then
      if bufferReadable server desc then .ok (total + desc.len.toNat) else .error .badAddress
    else if total + desc.len.toNat < 2 ^ 32 then .ok total
    else .error .outOfBounds

end Definitions

section Turns

variable {server : VHostUser} {table : UInt64} {i len : UInt32} {fuel : Nat} {buf : List UInt8}
  {second last : Nat × Nat} {front : List (Nat × Nat)}

theorem walkNext_eq_some {i total : Nat} :
    walkNext server table (i, total) = some second ↔
      descNext (server.mem.desc table) i = some second.1 ∧
        total + (server.mem.desc table i).len.toNat < ethPacketSize ∧
        bufferReadable server (server.mem.desc table i) = true ∧
        second.2 = total + (server.mem.desc table i).len.toNat := by
  rw [walkNext]
  split
  next turn =>
    rw [Option.map_eq_some_iff]
    constructor
    · rintro ⟨successor, linked, rfl⟩
      exact ⟨linked, turn.1, turn.2, rfl⟩
    · rintro ⟨linked, -, -, same⟩
      exact ⟨second.1, linked, Prod.ext rfl same.symm⟩
  next last =>
    refine iff_of_false (by simp) fun turn => last ⟨turn.2.1, turn.2.2.1⟩

theorem walkNext_words (points : walkNext server table (i.toNat, len.toNat) = some second) :
    let desc := server.mem.desc table i.toNat
    desc.flags &&& descFNext ≠ 0 ∧ len.toNat + desc.len.toNat < ethPacketSize ∧
      bufferReadable server desc = true ∧
      (len + desc.len).toNat = len.toNat + desc.len.toNat ∧
      second = (desc.next.toUInt32.toNat, (len + desc.len).toNat) := by
  intro desc
  obtain ⟨linked, fits, readable, total⟩ := walkNext_eq_some.mp points
  change len.toNat + desc.len.toNat < ethPacketSize at fits
  have sum : (len + desc.len).toNat = len.toNat + desc.len.toNat := by
    rw [UInt32.toNat_add]
    unfold ethPacketSize at fits
    omega
  rw [descNext] at linked
  split at linked
  next flag =>
    refine ⟨flag, fits, readable, sum, ?_⟩
    rw [UInt16.toNat_toUInt32, sum]
    exact Prod.ext (Option.some.inj linked).symm total
  · cases linked

section

variable (mapped : server.mem.mapped table = true)
include mapped

theorem gather_next {second : Nat × Nat}
    (points : walkNext server table (i.toNat, len.toNat) = some second) :
    ∃ (successor total : UInt32) (copied : List UInt8), second = (successor.toNat, total.toNat) ∧
      total.toNat < ethPacketSize ∧ ∀ fuel,
        gather server table (fuel + 1) i len buf =
          gather server table fuel successor total copied := by
  obtain ⟨flag, fits, readable, sum, second_eq⟩ := walkNext_words points
  obtain ⟨data, read⟩ := Option.isSome_iff_exists.mp readable
  refine ⟨_, _, buf ++ data, second_eq, by rw [sum]; exact fits, fun fuel => ?_⟩
  rw [gather, if_pos mapped]
  dsimp only
  rw [sum, if_pos fits, if_neg (by omega), read]
  dsimp only
  rw [if_pos flag]

theorem gather_last (small : len.toNat < ethPacketSize)
    (stop : walkNext server table (i.toNat, len.toNat) = none) :
    (gather server table (fuel + 1) i len buf).map Prod.fst =
      (walkEnd server table (i.toNat, len.toNat)).map UInt32.ofNat := by
  rw [gather, if_pos mapped, walkEnd]
  rw [walkNext] at stop
  dsimp only at stop ⊢
  generalize same : server.mem.desc table i.toNat = desc at stop
  have bound := desc.len.toNat_lt
  unfold ethPacketSize at *
  by_cases fits : len.toNat + desc.len.toNat < 1518
  · have sum : (len + desc.len).toNat = len.toNat + desc.len.toNat := by
      rw [UInt32.toNat_add]
      omega
    rw [sum, if_pos fits, if_neg (by omega), if_pos fits]
    by_cases readable : bufferReadable server desc = true
    · obtain ⟨data, read⟩ := Option.isSome_iff_exists.mp readable
      rw [if_pos ⟨fits, readable⟩, Option.map_eq_none_iff, descNext, same] at stop
      have unlinked : ¬ desc.flags &&& descFNext ≠ 0 := fun flag => by
        rw [if_pos flag] at stop
        cases stop
      rw [read, if_pos readable]
      dsimp only
      rw [if_neg unlinked]
      change Except.ok (len + desc.len) = Except.ok (UInt32.ofNat _)
      rw [← sum, UInt32.ofNat_toNat]
    · have unread : server.mem.readBytes (mapGuestAddr server.memory desc.addr) desc.len.toNat =
          none := Option.not_isSome_iff_eq_none.mp readable
      rw [unread, if_neg readable]
      rfl
  · rw [if_neg fits]
    by_cases wraps : len.toNat + desc.len.toNat < 2 ^ 32
    · have sum : (len + desc.len).toNat = len.toNat + desc.len.toNat := by
        rw [UInt32.toNat_add]
        omega
      rw [sum, if_neg fits, if_pos wraps]
      simp [Except.map]
    · have sum : (len + desc.len).toNat < 1518 := by
        rw [UInt32.toNat_add]
        omega
      rw [if_pos sum, if_pos (by omega), if_neg wraps]
      rfl

theorem gather_hangs (path : Trail (walkNext server table) (i.toNat, len.toNat) front last)
    (long : fuel ≤ front.length) : gather server table fuel i len buf = .error .hang := by
  induction fuel generalizing i len buf front with
  | zero => rfl
  | succ fuel ih =>
    cases path with
    | here => cases long
    | step points later =>
      obtain ⟨successor, total, copied, rfl, -, turn⟩ :=
        @gather_next _ _ _ _ buf mapped _ points
      rw [turn]
      exact ih later (Nat.le_of_succ_le_succ long)

theorem gather_ends (path : Trail (walkNext server table) (i.toNat, len.toNat) front last)
    (stop : walkNext server table last = none) (small : len.toNat < ethPacketSize)
    (short : front.length < fuel) :
    (gather server table fuel i len buf).map Prod.fst =
      (walkEnd server table last).map UInt32.ofNat := by
  induction fuel generalizing i len buf front with
  | zero => cases short
  | succ fuel ih =>
    cases path with
    | here => exact gather_last mapped small stop
    | step points later =>
      obtain ⟨successor, total, copied, rfl, below, turn⟩ :=
        @gather_next _ _ _ _ buf mapped _ points
      rw [turn]
      exact ih later below (Nat.lt_of_succ_lt_succ short)

end

end Turns

/-! ### Descriptors and their lengths -/

/-- From `head`, the loop copies the descriptors `front` and comes to `i`. -/
structure Walks (server : VHostUser) (table : UInt64) (head : Nat) (front : List Nat) (i : Nat) :
    Prop where
  path : Trail (descNext (server.mem.desc table)) head front i
  readable : Readable server (front.map (server.mem.desc table))
  below : totalLen (front.map (server.mem.desc table)) < ethPacketSize

/-- The loop comes to descriptors without bytes that link back to themselves. -/
def ZeroCycle (server : VHostUser) (table : UInt64) (head : Nat) : Prop :=
  ∃ front i cycle, Walks server table head front i ∧
    Trail (descNext (server.mem.desc table)) i cycle i ∧ cycle ≠ [] ∧
    totalLen (cycle.map (server.mem.desc table)) = 0

section Translation

variable {server : VHostUser} {table : UInt64} {head i : Nat} {front : List Nat}

/-- A path of descriptors is one of the loop, from any total with which it stays below the limit. -/
theorem states_of_path (path : Trail (descNext (server.mem.desc table)) head front i)
    (readable : Readable server (front.map (server.mem.desc table))) {total : Nat}
    (below : total + totalLen (front.map (server.mem.desc table)) < ethPacketSize) :
    ∃ states : List (Nat × Nat), states.length = front.length ∧
      Trail (walkNext server table) (head, total) states
        (i, total + totalLen (front.map (server.mem.desc table))) := by
  induction path generalizing total with
  | here => exact ⟨[], rfl, .here⟩
  | @step start second last rest points later ih =>
    rw [List.map_cons] at readable below
    obtain ⟨first, behind⟩ := List.forall_mem_cons.mp readable
    rw [totalLen_cons] at below
    obtain ⟨states, length, path⟩ := @ih behind
      (total + (server.mem.desc table start).len.toNat) (by omega)
    refine ⟨(start, total) :: states, by simp [length], ?_⟩
    rw [List.map_cons, totalLen_cons, ← Nat.add_assoc]
    refine .step ?_ path
    exact walkNext_eq_some.mpr ⟨points, by omega, first, rfl⟩

/-- A path of the loop is one of descriptors, whose lengths make up the total. -/
theorem path_of_states {states : List (Nat × Nat)} {first last : Nat × Nat}
    (path : Trail (walkNext server table) first states last) (small : first.2 < ethPacketSize) :
    Trail (descNext (server.mem.desc table)) first.1 (states.map Prod.fst) last.1 ∧
      Readable server ((states.map Prod.fst).map (server.mem.desc table)) ∧
      last.2 = first.2 + totalLen ((states.map Prod.fst).map (server.mem.desc table)) ∧
      last.2 < ethPacketSize := by
  induction path with
  | here => exact ⟨.here, by simp [Readable], rfl, small⟩
  | @step start second last rest points later ih =>
    obtain ⟨linked, fits, readable, sum⟩ := walkNext_eq_some.mp points
    obtain ⟨path, behind, whole, below⟩ := ih (by rw [sum]; exact fits)
    refine ⟨.step linked path, List.forall_mem_cons.mpr ⟨readable, behind⟩, ?_, below⟩
    rw [whole, sum, List.map_cons, List.map_cons, totalLen_cons, Nat.add_assoc]

theorem Walks.states (walks : Walks server table head front i) :
    ∃ states : List (Nat × Nat), states.length = front.length ∧
      Trail (walkNext server table) (head, 0) states
        (i, totalLen (front.map (server.mem.desc table))) := by
  obtain ⟨states, length, path⟩ := @states_of_path _ _ _ _ _ walks.path walks.readable 0
    (by rw [Nat.zero_add]; exact walks.below)
  rw [Nat.zero_add] at path
  exact ⟨states, length, path⟩

theorem walks_of_states {states : List (Nat × Nat)} {total : Nat}
    (path : Trail (walkNext server table) (head, 0) states (i, total)) :
    Walks server table head (states.map Prod.fst) i ∧
      total = totalLen ((states.map Prod.fst).map (server.mem.desc table)) := by
  obtain ⟨indices, readable, whole, below⟩ := path_of_states path (show 0 < ethPacketSize by decide)
  rw [Nat.zero_add] at whole
  exact ⟨⟨indices, readable, whole ▸ below⟩, whole⟩

end Translation

section Ending

variable {server : VHostUser} {table : UInt64} {head : UInt16} {first last : Nat × Nat}
  {states : List (Nat × Nat)}

def indexCount : Nat := 2 ^ 16

/-- The indices and totals that a walk can come to. -/
@[irreducible] def walkStates : Finset (Nat × Nat) :=
  Finset.range indexCount ×ˢ Finset.range ethPacketSize

theorem card_walkStates : walkStates.card = indexCount * ethPacketSize := by
  unfold walkStates
  rw [Finset.card_product, Finset.card_range, Finset.card_range]

theorem mem_walkStates {state : Nat × Nat} :
    state ∈ walkStates ↔ state.1 < indexCount ∧ state.2 < ethPacketSize := by
  unfold walkStates
  rw [Finset.mem_product, Finset.mem_range, Finset.mem_range]

theorem walkNext_mem {second : Nat × Nat} (points : walkNext server table first = some second) :
    second ∈ walkStates := by
  obtain ⟨linked, fits, -, sum⟩ := walkNext_eq_some.mp points
  rw [mem_walkStates, sum]
  refine ⟨?_, fits⟩
  rw [descNext] at linked
  split at linked
  · rw [← Option.some.inj linked]
    exact UInt16.toNat_lt _
  · cases linked

theorem walk_mem (path : Trail (walkNext server table) first states last)
    (inside : first ∈ walkStates) : last ∈ walkStates ∧ ∀ state ∈ states, state ∈ walkStates := by
  induction path with
  | here => exact ⟨inside, by simp⟩
  | step points later ih =>
    obtain ⟨end_mem, behind⟩ := ih (walkNext_mem points)
    exact ⟨end_mem, List.forall_mem_cons.mpr ⟨inside, behind⟩⟩

theorem head_mem (head : UInt16) : (head.toNat, 0) ∈ walkStates :=
  mem_walkStates.mpr ⟨head.toNat_lt, show 0 < ethPacketSize by decide⟩

/-- A walk that ends does so before the fuel of the model is used up. -/
theorem walk_short (path : Trail (walkNext server table) (head.toNat, 0) states last)
    (stop : walkNext server table last = none) : states.length < chainFuel := by
  obtain ⟨last_mem, inside⟩ := walk_mem path (head_mem head)
  have bound : (states ++ [last]).length ≤ walkStates.card := by
    refine (path.chain stop).length_le_card fun state member => ?_
    rcases List.mem_append.mp member with inStates | isLast
    · exact inside state inStates
    · rwa [List.mem_singleton.mp isLast]
  rw [card_walkStates, List.length_append, List.length_singleton] at bound
  unfold chainFuel
  unfold indexCount ethPacketSize at *
  omega

/-- A walk that does not end comes to descriptors without bytes that link back to themselves. -/
theorem walk_ends_iff : (∃ entries, Chain (walkNext server table) (head.toNat, 0) entries) ↔
    ¬ ZeroCycle server table head.toNat := by
  constructor
  · rintro ⟨entries, chain⟩ ⟨front, i, cycle, walks, cycled, nonempty, empty⟩
    obtain ⟨states, -, path⟩ := walks.states
    have readable : Readable server (cycle.map (server.mem.desc table)) :=
      readable_of_totalLen_zero empty
    have below : totalLen (front.map (server.mem.desc table)) +
        totalLen (cycle.map (server.mem.desc table)) < ethPacketSize := by
      rw [empty]
      exact walks.below
    obtain ⟨turns, length, around⟩ := states_of_path cycled readable below
    rw [empty, Nat.add_zero] at around
    have turning : turns ≠ [] := fun none => nonempty (by simpa [none] using length.symm)
    -- a chain is bounded, and the cycle is not
    obtain ⟨far, farPath, long⟩ := around.around turning (entries.length + 1)
    obtain ⟨rest, -, rfl⟩ := (path.trans farPath).chain_rest chain
    simp only [List.length_append] at long
    omega
  · intro endless
    by_contra unending
    obtain ⟨states, last, path, length⟩ :=
      Trail.exists_of_endless unending (walkStates.card + 1)
    obtain ⟨before, ⟨i, total⟩, cycle, arrives, cycled, nonempty⟩ := path.cycle_of_long
      (walk_mem path (head_mem head)).2 (by omega)
    obtain ⟨walks, rfl⟩ := walks_of_states arrives
    obtain ⟨indices, -, whole, -⟩ := path_of_states cycled walks.below
    refine endless ⟨_, i, cycle.map Prod.fst, walks, indices, by simpa using nonempty, by omega⟩

/-- The outcome of the loop: that of the last turn, or none. -/
theorem gather_outcome (mapped : server.mem.mapped table = true) :
    (∃ states last, Trail (walkNext server table) (head.toNat, 0) states last ∧
        walkNext server table last = none ∧ ∀ fuel, states.length < fuel →
          (gather server table fuel head.toUInt32 0 []).map Prod.fst =
            (walkEnd server table last).map UInt32.ofNat) ∨
      (ZeroCycle server table head.toNat ∧
        ∀ fuel, gather server table fuel head.toUInt32 0 [] = .error .hang) := by
  by_cases ends : ∃ entries, Chain (walkNext server table) (head.toNat, 0) entries
  · obtain ⟨entries, chain⟩ := ends
    obtain ⟨states, last, path, stop⟩ := chain.path
    refine .inl ⟨states, last, path, stop, fun fuel short => ?_⟩
    exact gather_ends mapped path stop (show 0 < ethPacketSize by decide) short
  · refine .inr ⟨not_not.mp fun cycle => ends (walk_ends_iff.mpr cycle), fun fuel => ?_⟩
    obtain ⟨states, last, path, length⟩ := Trail.exists_of_endless ends fuel
    exact gather_hangs mapped path length.ge

end Ending

theorem walkEnd_ne_hang {server : VHostUser} {table : UInt64} {state : Nat × Nat} :
    walkEnd server table state ≠ .error .hang := by
  rw [walkEnd]
  split
  · split <;> simp
  · split <;> simp

/-- The loop ends, for some fuel and then for that of the model, exactly when it comes to no
descriptors without bytes that link back to themselves. -/
theorem gather_returns_iff (server : VHostUser) (table : UInt64) (head : UInt16)
    (mapped : server.mem.mapped table = true) :
    ((∃ fuel, gather server table fuel head.toUInt32 0 [] ≠ .error .hang) ↔
        ¬ ZeroCycle server table head.toNat) ∧
      (gather server table chainFuel head.toUInt32 0 [] ≠ .error .hang ↔
        ¬ ZeroCycle server table head.toNat) := by
  obtain ⟨states, last, path, stop, outcome⟩ | ⟨cycle, hangs⟩ := @gather_outcome _ _ head mapped
  · have noCycle := walk_ends_iff.mp ⟨_, path.chain stop⟩
    have returns : ∀ fuel, states.length < fuel →
        gather server table fuel head.toUInt32 0 [] ≠ .error .hang := by
      intro fuel short hang
      have result := outcome fuel short
      rw [hang] at result
      exact walkEnd_ne_hang (map_eq_error_iff.mp result.symm)
    exact ⟨iff_of_true ⟨_, returns _ (Nat.lt_succ_self _)⟩ noCycle,
      iff_of_true (returns _ (walk_short path stop)) noCycle⟩
  · refine ⟨iff_of_false ?_ (not_not.mpr cycle), iff_of_false ?_ (not_not.mpr cycle)⟩
    · rintro ⟨fuel, returns⟩
      exact returns (hangs fuel)
    · exact fun returns => returns (hangs chainFuel)

/-- A descriptor with bytes that links to itself: the copies fill the buffer. -/
theorem gather_returns_looped :
    ∃ fuel, gather (oneHeadServer ⟨0x40, 100, descFNext, 0⟩ 0) 0x1000 fuel 0 0 [] ≠
      .error .hang := by
  refine (gather_returns_iff (oneHeadServer ⟨0x40, 100, descFNext, 0⟩ 0) 0x1000 0 rfl).1.mpr ?_
  rintro ⟨front, i, cycle, -, -, nonempty, empty⟩
  cases cycle with
  | nil => exact nonempty rfl
  | cons first rest =>
    rw [List.map_cons, totalLen_cons] at empty
    have some : ((oneHeadServer ⟨0x40, 100, descFNext, 0⟩ 0).mem.desc 0x1000 first).len.toNat =
      100 := rfl
    omega

/-- A descriptor without bytes that links to itself. -/
theorem gather_loops_forever :
    (oneHeadServer ⟨0x40, 0, descFNext, 0⟩ 0).mem.mapped 0x1000 = true ∧ ∀ fuel,
      gather (oneHeadServer ⟨0x40, 0, descFNext, 0⟩ 0) 0x1000 fuel 0 0 [] = .error .hang := by
  refine ⟨rfl, fun fuel => ?_⟩
  have turn : walkNext (oneHeadServer ⟨0x40, 0, descFNext, 0⟩ 0) 0x1000 (0, 0) = some (0, 0) := rfl
  obtain ⟨states, path, long⟩ := (Trail.step turn .here).around (by simp) fuel
  exact gather_hangs rfl path long

/-! ### Lengths -/

/-- The loop ends at `i`, after `front` with `total` bytes: the descriptor does not fit any more,
or it is the last one. -/
def WalkEnds (server : VHostUser) (table : UInt64) (front : List Nat) (i total : Nat) : Prop :=
  let before := totalLen (front.map (server.mem.desc table))
  let desc := server.mem.desc table i
  (ethPacketSize ≤ before + desc.len.toNat ∧ total = before) ∨
    (before + desc.len.toNat < ethPacketSize ∧ bufferReadable server desc = true ∧
      descNext (server.mem.desc table) i = none ∧ total = before + desc.len.toNat)

/-- The descriptor at which the 32-bit sum wraps, or a packet without a full header. -/
def BadLength (server : VHostUser) (table : UInt64) (front : List Nat) (i : Nat) : Prop :=
  2 ^ 32 ≤ totalLen (front.map (server.mem.desc table)) + (server.mem.desc table i).len.toNat ∨
    ∃ total, WalkEnds server table front i total ∧ 0 < total ∧ total < netHdrSize

section Lengths

variable {server : VHostUser} {table : UInt64} {head : UInt16} {front : List Nat} {i total : Nat}

theorem walkEnd_cases (stop : walkNext server table
      (i, totalLen (front.map (server.mem.desc table))) = none) :
    let sum := totalLen (front.map (server.mem.desc table)) + (server.mem.desc table i).len.toNat
    let outcome := walkEnd server table (i, totalLen (front.map (server.mem.desc table)))
    (2 ^ 32 ≤ sum ∧ outcome = .error .outOfBounds) ∨ outcome = .error .badAddress ∨
      ∃ total, WalkEnds server table front i total ∧ sum < 2 ^ 32 ∧ outcome = .ok total := by
  intro sum outcome
  by_cases fits : sum < ethPacketSize
  · by_cases readable : bufferReadable server (server.mem.desc table i) = true
    · have unlinked : descNext (server.mem.desc table) i = none := by
        cases linked : descNext (server.mem.desc table) i with
        | none => rfl
        | some successor =>
          have goesOn : walkNext server table (i, totalLen (front.map (server.mem.desc table))) =
              some (successor, sum) := walkNext_eq_some.mpr ⟨linked, fits, readable, rfl⟩
          rw [stop] at goesOn
          cases goesOn
      refine .inr (.inr ⟨sum, .inr ⟨fits, readable, unlinked, rfl⟩, ?_, ?_⟩)
      · unfold ethPacketSize at fits
        omega
      · exact (if_pos fits).trans (if_pos readable)
    · exact .inr (.inl ((if_pos fits).trans (if_neg readable)))
  · by_cases wraps : sum < 2 ^ 32
    · exact .inr (.inr ⟨_, .inl ⟨Nat.le_of_not_lt fits, rfl⟩, wraps,
        (if_neg fits).trans (if_pos wraps)⟩)
    · exact .inl ⟨Nat.le_of_not_lt wraps, (if_neg fits).trans (if_neg wraps)⟩

section

variable (ends : WalkEnds server table front i total)
include ends

theorem WalkEnds.stop :
    walkNext server table (i, totalLen (front.map (server.mem.desc table))) = none := by
  rw [Option.eq_none_iff_forall_ne_some]
  intro second points
  obtain ⟨linked, fits, -, -⟩ := walkNext_eq_some.mp points
  obtain ⟨large, -⟩ | ⟨-, -, unlinked, -⟩ := ends
  · omega
  · rw [unlinked] at linked
    cases linked

theorem WalkEnds.unique {other : Nat}
    (otherEnds : WalkEnds server table front i other) : total = other := by
  obtain ⟨large, rfl⟩ | ⟨small, -, -, rfl⟩ := ends <;>
    obtain ⟨otherLarge, rfl⟩ | ⟨otherSmall, -, -, rfl⟩ := otherEnds <;> omega

theorem WalkEnds.lt (walks : Walks server table head.toNat front i) : total < ethPacketSize := by
  obtain ⟨-, rfl⟩ | ⟨small, -, -, rfl⟩ := ends
  · exact walks.below
  · exact small

end

theorem Walks.gathers (walks : Walks server table head.toNat front i)
    (mapped : server.mem.mapped table = true) (stop : walkNext server table
      (i, totalLen (front.map (server.mem.desc table))) = none) :
    (gather server table chainFuel head.toUInt32 0 []).map Prod.fst =
      (walkEnd server table (i, totalLen (front.map (server.mem.desc table)))).map
        UInt32.ofNat := by
  obtain ⟨states, -, path⟩ := walks.states
  have short := walk_short path stop
  exact gather_ends mapped path stop (show 0 < ethPacketSize by decide) short

theorem packetOf_of_error {fault : Fault} (failed :
      (gather server table chainFuel head.toUInt32 0 []).map Prod.fst = .error fault) :
    packetOf server table head = .error fault := by
  rw [packetOf, map_eq_error_iff.mp failed]

theorem packetOf_of_ok (small : total < ethPacketSize) (gathered :
      (gather server table chainFuel head.toUInt32 0 []).map Prod.fst = .ok (.ofNat total)) :
    packetOf server table head = .error .outOfBounds ↔ 0 < total ∧ total < netHdrSize := by
  have value : (UInt32.ofNat total).toNat = total := by
    rw [UInt32.toNat_ofNat']
    unfold ethPacketSize at small
    omega
  rw [packetOf]
  cases result : gather server table chainFuel head.toUInt32 0 [] with
  | error fault =>
    rw [result] at gathered
    cases gathered
  | ok out =>
    obtain ⟨len, buf⟩ := out
    rw [result] at gathered
    obtain rfl : len = .ofNat total := Except.ok.inj gathered
    have zero : UInt32.ofNat total = 0 ↔ total = 0 := by
      rw [← UInt32.toNat_inj, value]
      rfl
    dsimp only
    rw [value]
    by_cases empty : total = 0
    · rw [if_pos (zero.mpr empty)]
      simp [empty]
    rw [if_neg fun same => empty (zero.mp same)]
    by_cases short : total < netHdrSize
    · rw [if_pos short]
      exact iff_of_true rfl ⟨Nat.pos_of_ne_zero empty, short⟩
    · rw [if_neg short]
      exact iff_of_false (by simp) fun lengths => short lengths.2

/-- The lengths of a chain go wrong at a descriptor that the loop comes to. -/
theorem packetOf_outOfBounds_iff (mapped : server.mem.mapped table = true) :
    packetOf server table head = .error .outOfBounds ↔
      ∃ front i, Walks server table head.toNat front i ∧ BadLength server table front i := by
  constructor
  · intro failed
    obtain ⟨states, ⟨i, total⟩, path, stop, outcome⟩ | ⟨-, hangs⟩ := @gather_outcome _ _ head mapped
    · obtain ⟨walks, rfl⟩ := walks_of_states path
      refine ⟨_, i, walks, ?_⟩
      have gathered := outcome chainFuel (walk_short path stop)
      obtain ⟨wraps, -⟩ | bad | ⟨total, ends, -, ended⟩ := walkEnd_cases stop
      · exact .inl wraps
      · rw [bad] at gathered
        rw [packetOf_of_error gathered] at failed
        cases failed
      · rw [ended] at gathered
        obtain ⟨some, short⟩ := (packetOf_of_ok (ends.lt walks) gathered).mp failed
        exact .inr ⟨total, ends, some, short⟩
    · rw [packetOf, hangs] at failed
      cases failed
  · rintro ⟨front, i, walks, wraps | ⟨total, ends, lengths⟩⟩
    · have stop : walkNext server table (i, totalLen (front.map (server.mem.desc table))) =
          none := by
        refine WalkEnds.stop (.inl ⟨?_, rfl⟩)
        unfold ethPacketSize
        omega
      have gathered := walks.gathers mapped stop
      obtain ⟨-, ended⟩ | bad | ⟨_, -, unwrapped, -⟩ := walkEnd_cases stop
      · rw [ended] at gathered
        exact packetOf_of_error gathered
      · rw [walkEnd, if_neg (by unfold ethPacketSize; omega), if_neg (by omega)] at bad
        cases bad
      · omega
    · have gathered := walks.gathers mapped ends.stop
      obtain ⟨-, ended⟩ | bad | ⟨other, otherEnds, -, ended⟩ := walkEnd_cases ends.stop
      · rw [ended] at gathered
        exact packetOf_of_error gathered
      · rw [walkEnd] at bad
        obtain ⟨large, -⟩ | ⟨small, readable, -, -⟩ := ends
        · rw [if_neg (by omega)] at bad
          split at bad <;> cases bad
        · rw [if_pos small, if_pos readable] at bad
          cases bad
      · rw [ended, otherEnds.unique ends] at gathered
        exact (packetOf_of_ok (ends.lt walks) gathered).mpr lengths

end Lengths

/-- Nothing beyond a buffer is copied, and the length that is handed over is that of the packet. -/
structure LengthsExact (server : VHostUser) (index : Fin 2) (aIdx : UInt32) : Prop where
  inBounds : ∀ after, (processDesc index aIdx).run server ≠ .error .outOfBounds after
  payload : ∀ code after, (processDesc index aIdx).run server = .ok code after →
    after.trace = server.trace ∨ ∃ len packet,
      after.trace = server.trace ++ [.received packet] ∧
      after.bufferSize.toNat = packet.length ∧ netHdrSize + packet.length = len.toNat ∧
      (after.mem.used (server.vring index).used).ring
        ((server.vring index).lastUsedIdx.toUInt32 % (server.vring index).num).toUInt16.toNat =
          ⟨((server.mem.avail (server.vring index).avail).ring aIdx.toNat).toUInt32, len⟩

theorem processDesc_payload {server after : VHostUser} {index : Fin 2} {aIdx : UInt32} {code : Int}
    (returned : (processDesc index aIdx).run server = .ok code after) :
    after.trace = server.trace ∨ ∃ len packet,
      after.trace = server.trace ++ [.received packet] ∧
      after.bufferSize.toNat = packet.length ∧ netHdrSize + packet.length = len.toNat ∧
      (after.mem.used (server.vring index).used).ring
        ((server.vring index).lastUsedIdx.toUInt32 % (server.vring index).num).toUInt16.toNat =
          ⟨((server.mem.avail (server.vring index).avail).ring aIdx.toNat).toUInt32, len⟩ := by
  obtain ⟨-, rfl⟩ | ⟨len, packet, outcome, rfl⟩ := processDesc_cases returned
  · exact .inl rfl
  obtain ⟨header, small, length⟩ := packetOf_length outcome
  refine .inr ⟨len, packet, rfl, ?_, by omega, deliver_used _ _ _ _ _⟩
  change (len.toUInt64 - netHdrSize.toUInt64).toUInt32.toNat = packet.length
  rw [length, UInt64.toNat_toUInt32, UInt64.toNat_sub, UInt32.toNat_toUInt64]
  unfold netHdrSize ethPacketSize at *
  simp only [Nat.toUInt64, UInt64.toNat_ofNat']
  omega

/-- The length arithmetic of a call is exact, unless a descriptor makes the 32-bit sum wrap, or
the loop ends with some bytes that are fewer than a header. -/
theorem processDesc_lengths_iff (server : VHostUser) (index : Fin 2) (aIdx : UInt32) (head : UInt16)
    (mapped : RingMapped server index)
    (headEq : (server.mem.avail (server.vring index).avail).ring aIdx.toNat = head) :
    LengthsExact server index aIdx ↔ ∀ front i,
      Walks server (server.vring index).desc head.toNat front i →
        ¬ BadLength server (server.vring index).desc front i := by
  have outcome : LengthsExact server index aIdx ↔
      packetOf server (server.vring index).desc head ≠ .error .outOfBounds := by
    obtain ⟨state, ran⟩ := processDesc_run mapped.usable headEq
    constructor
    · intro exact failed
      rw [failed] at ran
      exact exact.inBounds state ran
    · refine fun sound => ⟨fun after faulted => ?_, fun code after => processDesc_payload⟩
      rw [ran] at faulted
      split at faulted
      next fault failed =>
        cases faulted
        exact sound failed
      · cases faulted
      · cases faulted
  rw [outcome, Ne, packetOf_outOfBounds_iff mapped.desc]
  constructor
  · exact fun sound front i walks bad => sound ⟨front, i, walks, bad⟩
  · rintro sound ⟨front, i, walks, bad⟩
    exact sound front i walks bad

/-- The header and a frame of 60 bytes. -/
theorem processDesc_lengths_frame : LengthsExact (headerAndFrame 60) txIdx 0 := by
  refine (processDesc_lengths_iff (headerAndFrame 60) txIdx 0 0 (headerAndFrame_mapped 60 txIdx)
    rfl).mpr fun front i walks bad => ?_
  have first : descNext ((headerAndFrame 60).mem.desc ((headerAndFrame 60).vring txIdx).desc) 0 =
      some 1 := by decide
  have second : descNext ((headerAndFrame 60).mem.desc ((headerAndFrame 60).vring txIdx).desc) 1 =
      none := by decide
  cases walks.path with
  | here =>
    obtain wraps | ⟨total, ⟨large, -⟩ | ⟨-, -, unlinked, -⟩, -⟩ := bad
    · exact absurd wraps (by decide)
    · exact absurd large (by decide)
    · cases first.symm.trans unlinked
  | step points later =>
    cases first.symm.trans points
    cases later with
    | here =>
      obtain wraps | ⟨total, ⟨large, -⟩ | ⟨-, -, -, rfl⟩, -, short⟩ := bad
      · exact absurd wraps (by decide)
      · exact absurd large (by decide)
      · exact absurd short (by decide)
    | step points _ => cases second.symm.trans points

/-- A length with which the sum wraps, behind a header; and a packet of four bytes. -/
theorem processDesc_lengths_wrap :
    ¬ LengthsExact (headerAndFrame 0xffffffff) txIdx 0 ∧
      ¬ LengthsExact (oneHeadServer ⟨0x40, 4, 0, 0⟩ 0) txIdx 0 := by
  have inexact {server : VHostUser} (usable : RingUsable server txIdx)
      (failed : packetOf server (server.vring txIdx).desc ((server.mem.avail
        (server.vring txIdx).avail).ring 0) = .error .outOfBounds) :
      ¬ LengthsExact server txIdx 0 := by
    intro exact
    obtain ⟨state, ran⟩ := @processDesc_run server txIdx 0 _ usable rfl
    rw [UInt32.toNat_zero, failed] at ran
    exact exact.inBounds state ran
  constructor
  · have gathered : gather (headerAndFrame 0xffffffff)
        ((headerAndFrame 0xffffffff).vring txIdx).desc
        chainFuel (0 : UInt16).toUInt32 0 [] = .error .outOfBounds :=
      (gather_head (headerAndFrame_mapped _ txIdx).desc (headerAndFrame_chain _ txIdx)).trans
        (by decide +kernel)
    refine inexact (headerAndFrame_mapped 0xffffffff txIdx).usable ?_
    change packetOf _ _ 0 = _
    rw [packetOf, gathered]
  · have gathered : gather (oneHeadServer ⟨0x40, 4, 0, 0⟩ 0)
        ((oneHeadServer ⟨0x40, 4, 0, 0⟩ 0).vring txIdx).desc chainFuel (0 : UInt16).toUInt32 0 [] =
          .ok (4, [0, 0, 0, 0]) :=
      (gather_head (oneHeadServer_mapped _ _ txIdx).desc
        (oneHeadServer_chain _ (by decide) _ _ _)).trans (by decide +kernel)
    refine inexact (oneHeadServer_mapped ⟨0x40, 4, 0, 0⟩ 0 txIdx).usable ?_
    change packetOf _ _ 0 = _
    rw [packetOf, gathered]
    rfl

end VhostUser.Server
