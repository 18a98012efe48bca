import Mathlib.Algebra.Order.Ring.Nat
import VhostUser.Lib.LinkedChain
import VhostUser.Server.TxEntry

/-!
Contract: which descriptor chains `process_desc` delivers.

A finite chain is the list of descriptors its links visit. The copy loop takes
the longest front part of the chain whose total length stays below
`ETH_PACKET_SIZE`. It delivers a packet exactly when that part is readable,
holds at least a header, and the first descriptor left out does not wrap the
32-bit sum; it takes the early return exactly when the part is empty of bytes.
-/

namespace VhostUser.Server

open VhostUser.Lib

def descNext (table : Nat → VringDesc) (i : Nat) : Option Nat :=
  if (table i).flags &&& descFNext ≠ 0 then some (table i).next.toNat else none

/-- The front of a chain that fits after `total` bytes. -/
def fitting : Nat → List VringDesc → List VringDesc
  | _, [] => []
  | total, desc :: rest =>
    if total + desc.len.toNat < ethPacketSize then
      desc :: fitting (total + desc.len.toNat) rest
    else []

def totalLen (descs : List VringDesc) : Nat :=
  (descs.map fun desc => desc.len.toNat).sum

theorem totalLen_cons (desc : VringDesc) (descs : List VringDesc) :
    totalLen (desc :: descs) = desc.len.toNat + totalLen descs := by
  simp [totalLen]

def Readable (server : VHostUser) (descs : List VringDesc) : Prop :=
  ∀ desc ∈ descs,
    (server.mem.readBytes (mapGuestAddr server.memory desc.addr) desc.len.toNat).isSome = true

/-- The first descriptor that does not fit leaves the 32-bit sum unwrapped. -/
def NoWrap (total : Nat) (descs : List VringDesc) : Prop :=
  ∀ desc, descs[(fitting total descs).length]? = some desc →
    total + totalLen (fitting total descs) + desc.len.toNat < 2 ^ 32

/-- The copy loop over the list of visited descriptors. -/
def gatherChain (server : VHostUser) :
    List VringDesc → UInt32 → List UInt8 → Except Fault (UInt32 × List UInt8)
  | [], len, buf => .ok (len, buf)
  | desc :: rest, len, buf =>
    if (len + desc.len).toNat < ethPacketSize then
      if ethPacketSize < len.toNat + desc.len.toNat then .error .outOfBounds
      else
        match server.mem.readBytes (mapGuestAddr server.memory desc.addr) desc.len.toNat with
        | none => .error .badAddress
        | some data => gatherChain server rest (len + desc.len) (buf ++ data)
    else .ok (len, buf)

variable {entries : List Nat}

/-- On a finite chain the unbounded walk is the walk over its list. -/
theorem gather_eq_gatherChain {server : VHostUser} {table : UInt64} {fuel : Nat} {i : UInt32}
    (mapped : server.mem.mapped table = true)
    (chain : Chain (descNext (server.mem.desc table)) i.toNat entries)
    (enough : entries.length ≤ fuel) (len : UInt32) (buf : List UInt8) :
    gather server table fuel i len buf =
      gatherChain server (entries.map (server.mem.desc table)) len buf := by
  induction fuel generalizing i entries len buf with
  | zero =>
    have member := chain.head_mem
    have empty : entries = [] := List.length_eq_zero_iff.mp (by omega)
    simp [empty] at member
  | succ fuel ih =>
    cases chain with
    | stop last =>
      have noNext : ¬ (server.mem.desc table i.toNat).flags &&& descFNext ≠ 0 := by
        intro flag
        simp [descNext, flag] at last
      cases read : server.mem.readBytes (mapGuestAddr server.memory
        (server.mem.desc table i.toNat).addr) (server.mem.desc table i.toNat).len.toNat with
      | none => simp only [gather, mapped, if_true, List.map_cons, gatherChain, read]
      | some data =>
        simp only [gather, mapped, if_true, List.map_cons, List.map_nil, gatherChain, read, noNext,
          if_false]
    | @link _ successor rest points tail =>
      have flag : (server.mem.desc table i.toNat).flags &&& descFNext ≠ 0 := by
        by_contra noNext
        simp [descNext, noNext] at points
      have successorEq : (server.mem.desc table i.toNat).next.toUInt32.toNat = successor := by
        simpa [descNext, flag] using points
      rw [← successorEq] at tail
      have later := fun len buf => ih tail
        (by simp only [List.length_cons] at enough; omega) len buf
      cases read : server.mem.readBytes (mapGuestAddr server.memory
        (server.mem.desc table i.toNat).addr) (server.mem.desc table i.toNat).len.toNat with
      | none => simp only [gather, mapped, if_true, List.map_cons, gatherChain, read]
      | some data =>
        simp only [gather, mapped, if_true, List.map_cons, gatherChain, read, flag, ne_eq,
          not_false_eq_true, later]

section Walk

variable {server : VHostUser} {desc : VringDesc} {total : Nat}

theorem fitting_cons_of_fits (rest : List VringDesc)
    (fits : total + desc.len.toNat < ethPacketSize) :
    fitting total (desc :: rest) = desc :: fitting (total + desc.len.toNat) rest := by
  simp [fitting, fits]

theorem fitting_cons_of_not_fits (rest : List VringDesc)
    (large : ¬ total + desc.len.toNat < ethPacketSize) : fitting total (desc :: rest) = [] := by
  simp [fitting, large]

theorem noWrap_cons_of_fits {rest : List VringDesc}
    (fits : total + desc.len.toNat < ethPacketSize) :
    NoWrap total (desc :: rest) ↔ NoWrap (total + desc.len.toNat) rest := by
  unfold NoWrap
  rw [fitting_cons_of_fits rest fits]
  simp only [List.length_cons, List.getElem?_cons_succ, totalLen, List.map_cons, List.sum_cons]
  constructor
  · intro unwrapped stopper found
    have := unwrapped stopper found
    omega
  · intro unwrapped stopper found
    have := unwrapped stopper found
    omega

theorem noWrap_cons_of_not_fits {rest : List VringDesc}
    (large : ¬ total + desc.len.toNat < ethPacketSize) :
    NoWrap total (desc :: rest) ↔ total + desc.len.toNat < 2 ^ 32 := by
  unfold NoWrap
  rw [fitting_cons_of_not_fits rest large]
  simp [totalLen]

/-- A readable chain without wrap is copied up to the first misfit. Any other fails at an
unreadable buffer or a wrapped sum. -/
theorem gatherChain_result {descs : List VringDesc} {len : UInt32} (buf : List UInt8)
    (small : len.toNat < ethPacketSize) :
    (∃ result, gatherChain server descs len buf = .ok result ∧
      (Readable server (fitting len.toNat descs) ∧ NoWrap len.toNat descs) ∧
      result.1.toNat = len.toNat + totalLen (fitting len.toNat descs)) ∨
    ∃ fault, gatherChain server descs len buf = .error fault ∧
      ¬ (Readable server (fitting len.toNat descs) ∧ NoWrap len.toNat descs) := by
  induction descs generalizing len buf with
  | nil =>
    exact .inl ⟨(len, buf), rfl, ⟨by simp [Readable, fitting], by simp [NoWrap]⟩,
      by simp [fitting, totalLen]⟩
  | cons desc rest ih =>
    by_cases fits : len.toNat + desc.len.toNat < ethPacketSize
    · have sum : (len + desc.len).toNat = len.toNat + desc.len.toNat := by
        rw [UInt32.toNat_add]
        unfold ethPacketSize at fits
        omega
      rw [noWrap_cons_of_fits fits, fitting_cons_of_fits rest fits, totalLen_cons, gatherChain, sum,
        if_pos fits, if_neg (by omega)]
      cases found : server.mem.readBytes (mapGuestAddr server.memory desc.addr)
          desc.len.toNat with
      | none =>
        refine .inr ⟨_, rfl, fun good => ?_⟩
        simpa [found] using good.1 desc (by simp)
      | some data =>
        have readable : Readable server (desc :: fitting (len.toNat + desc.len.toNat) rest) ↔
            Readable server (fitting (len.toNat + desc.len.toNat) rest) := by
          rw [Readable, List.forall_mem_cons, found]
          exact and_iff_right rfl
        have later := @ih (len + desc.len) (buf ++ data) (by omega)
        rwa [sum, Nat.add_assoc, ← readable] at later
    · rw [fitting_cons_of_not_fits rest fits, noWrap_cons_of_not_fits fits, gatherChain,
        UInt32.toNat_add]
      by_cases unwrapped : len.toNat + desc.len.toNat < 2 ^ 32
      · rw [Nat.mod_eq_of_lt unwrapped, if_neg fits]
        exact .inl ⟨_, rfl, ⟨by simp [Readable], unwrapped⟩, by simp [totalLen]⟩
      have descLt := UInt32.toNat_lt desc.len
      unfold ethPacketSize at small ⊢
      rw [if_pos (by omega), if_pos (by omega)]
      exact .inr ⟨_, rfl, fun good => unwrapped good.2⟩

end Walk

/-! ### Heads -/

/-- The chain at `head` yields a packet with a full header. -/
def HeadDelivers (server : VHostUser) (table : UInt64) (head : UInt16) : Prop :=
  ∃ entries, Chain (descNext (server.mem.desc table)) head.toNat entries ∧
    let descs := entries.map (server.mem.desc table)
    Readable server (fitting 0 descs) ∧ NoWrap 0 descs ∧ netHdrSize ≤ totalLen (fitting 0 descs)

/-- The chain at `head` puts no byte into the buffer: it has none, or its first
non-empty descriptor does not fit. -/
def HeadEmpty (server : VHostUser) (table : UInt64) (head : UInt16) : Prop :=
  ∃ entries, Chain (descNext (server.mem.desc table)) head.toNat entries ∧
    totalLen (fitting 0 (entries.map (server.mem.desc table))) = 0

def HeadFinite (server : VHostUser) (table : UInt64) (head : UInt16) : Prop :=
  ∃ entries, Chain (descNext (server.mem.desc table)) head.toNat entries

section Heads

variable {server : VHostUser} {table : UInt64} {head : UInt16}

theorem chain_length_le (chain : Chain (descNext (server.mem.desc table)) head.toNat entries) :
    entries.length ≤ 65536 := by
  apply chain.length_le (UInt16.toNat_lt head)
  intro entry successor points
  unfold descNext at points
  split at points
  · cases points
    exact UInt16.toNat_lt _
  · simp at points

theorem gather_head (mapped : server.mem.mapped table = true)
    (chain : Chain (descNext (server.mem.desc table)) head.toNat entries) :
    gather server table chainFuel head.toUInt32 0 [] =
      gatherChain server (entries.map (server.mem.desc table)) 0 [] := by
  apply gather_eq_gatherChain mapped (by simpa using chain)
  have := chain_length_le chain
  unfold chainFuel ethPacketSize
  omega

theorem readable_of_totalLen_zero {descs : List VringDesc} (empty : totalLen descs = 0) :
    Readable server descs := by
  intro desc member
  have zero : desc.len.toNat = 0 := by
    unfold totalLen at empty
    rw [List.sum_eq_zero_iff_forall_eq_nat] at empty
    exact empty _ (List.mem_map_of_mem member)
  rw [zero]
  rfl

theorem packetOf_none_iff (mapped : server.mem.mapped table = true)
    (finite : HeadFinite server table head) :
    packetOf server table head = .ok none ↔ HeadEmpty server table head := by
  obtain ⟨entries, chain⟩ := finite
  unfold packetOf
  rw [gather_head mapped chain]
  have emptyIff : HeadEmpty server table head ↔
      totalLen (fitting 0 (entries.map (server.mem.desc table))) = 0 := by
    constructor
    · rintro ⟨other, otherChain, empty⟩
      rwa [otherChain.unique chain] at empty
    · exact fun empty => ⟨entries, chain, empty⟩
  rw [emptyIff]
  have walk := @gatherChain_result server (entries.map (server.mem.desc table)) 0 [] (by decide)
  rw [UInt32.toNat_zero, Nat.zero_add] at walk
  obtain ⟨⟨len, buf⟩, walked, good, lenEq⟩ | ⟨fault, failed, bad⟩ := walk
  · rw [walked, ← lenEq]
    by_cases zero : len = 0
    · simp [zero]
    · have nonzero : len.toNat ≠ 0 := fun toNatZero => zero (UInt32.toNat_inj.mp toNatZero)
      simp only [zero, if_false, nonzero, iff_false]
      split <;> simp
  · rw [failed]
    simp only [reduceCtorEq, false_iff]
    intro empty
    refine bad ⟨readable_of_totalLen_zero empty, ?_⟩
    intro desc found
    rw [empty]
    have := UInt32.toNat_lt desc.len
    omega

theorem packetOf_some_iff (mapped : server.mem.mapped table = true)
    (finite : HeadFinite server table head) :
    (∃ len packet, packetOf server table head = .ok (some (len, packet))) ↔
      HeadDelivers server table head := by
  obtain ⟨entries, chain⟩ := finite
  unfold packetOf
  rw [gather_head mapped chain]
  have deliversIff : HeadDelivers server table head ↔
      (Readable server (fitting 0 (entries.map (server.mem.desc table))) ∧
        NoWrap 0 (entries.map (server.mem.desc table))) ∧
        netHdrSize ≤ totalLen (fitting 0 (entries.map (server.mem.desc table))) := by
    constructor
    · rintro ⟨other, otherChain, readable, unwrapped, header⟩
      rw [otherChain.unique chain] at readable unwrapped header
      exact ⟨⟨readable, unwrapped⟩, header⟩
    · rintro ⟨⟨readable, unwrapped⟩, header⟩
      exact ⟨entries, chain, readable, unwrapped, header⟩
  rw [deliversIff]
  have walk := @gatherChain_result server (entries.map (server.mem.desc table)) 0 [] (by decide)
  rw [UInt32.toNat_zero, Nat.zero_add] at walk
  obtain ⟨⟨len, buf⟩, walked, good, lenEq⟩ | ⟨fault, failed, bad⟩ := walk
  · rw [walked, ← lenEq]
    by_cases short : len.toNat < netHdrSize
    · have notHeader : ¬ netHdrSize ≤ len.toNat := by omega
      simp only [notHeader, and_false, iff_false, not_exists]
      intro other packet
      split_ifs <;> simp
    · have nonzero : len ≠ 0 := by
        intro zero
        rw [zero] at short
        exact short (by decide)
      simp [nonzero, short, good]
      omega
  · simpa [failed] using fun readable unwrapped => absurd ⟨readable, unwrapped⟩ bad

end Heads

end VhostUser.Server
