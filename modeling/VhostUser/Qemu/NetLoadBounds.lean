import VhostUser.Qemu.LoadBounds
import VhostUser.Qemu.NetMigrate

/-!
Contract: `virtio_net_load` on any stream, behind what `virtio_load` accepts.

The number of addresses and the number of queue pairs are taken from the stream. The number of
addresses is an `int`: it sizes a buffer in bytes and a read in addresses, and it may be negative.
Nothing is compared with the number of pairs.

Owns: the counts of a stream under which the load stays inside the device and leaves counters in
bounds.
-/

namespace VhostUser.Qemu.Virtio

open VhostUser.Lib
open VhostUser.Lib.ByteImage (overlay)
open VhostUser.Lib.Decoder

/-- A store whose place or size comes from the stream. -/
inductive NetStore where
  /-- Bytes of `mac_table.macs`. -/
  | macs (count : Nat)
  /-- Bytes of a buffer of the given size. -/
  | buffer (allocated count : Nat)
  /-- `vqs[i]`. -/
  | queue (i : Nat)

def NetStore.Inside (config : NetConfig) : NetStore → Prop
  | .macs count => count ≤ macTableEntries * ethAlen
  | .buffer allocated count => count ≤ allocated
  | .queue i => i < config.maxQueues.toNat

/-- What is loaded: the counters, the addresses, and the stores of the last stage. -/
structure NetLoading where
  net : VirtIONet
  inUse : Int32
  macs : ByteImage
  stores : List NetStore

section Stages

variable (config : NetConfig) (virtioLoad : Decoder LoadError VirtIODevice) (version : Nat)

/-- The load up to the table of addresses. -/
def netLoadFront : Decoder NetLoadError VirtIONet :=
  if version < 2 || virtioNetVmVersion < version then throw (.version version)
  else do
    let vdev ← virtioLoad.adaptError .virtio
    let n ← loadHeader config (virtioNetSetFeatures config vdev.guestFeatures
      (virtioNetDeviceRealize config))
    loadModes version n

/-- The table, for every count. A table that is too long is read and dropped. -/
def netGetMacs (n : VirtIONet) (inUse : Int32) : Decoder NetLoadError NetLoading := do
  let data ← takeBytes (inUse * 6).toInt.toNat
  if inUse ≤ 64 then return ⟨n, inUse, overlay data n.macTable.macs, [.macs data.length]⟩
  else return ⟨n, 0, n.macTable.macs, [.buffer inUse.toInt.toNat data.length]⟩

def netLoadTable : Decoder NetLoadError NetLoading := do
  let n ← netLoadFront config virtioLoad version
  if 5 ≤ version then
    let count ← get32
    netGetMacs n count.toInt32
  else return ⟨n, 0, n.macTable.macs, []⟩

/-- The load up to the queues, with the number of pairs in the stream. -/
def netLoadPairs : Decoder NetLoadError (NetLoading × Option UInt16) := do
  let loading ← netLoadTable config virtioLoad version
  let n ← loadVlans config version loading.net
  let net ← loadLateModes config version n
  if 1 < config.maxQueues then
    let maxQueues ← get16
    check (config.maxQueues = maxQueues) .maxQueues
    let currQueues ← get16
    return ({ loading with net }, some currQueues)
  else return ({ loading with net }, none)

/-- The loop over the pairs. What follows it cannot fail and leaves the counters alone. -/
def netLoadQueues : Decoder NetLoadError NetLoading := do
  let (loading, pairs) ← netLoadPairs config virtioLoad version
  match pairs with
  | none => return { loading with stores := [] }
  | some currQueues =>
    let txWaiting ← getTxWaiting (currQueues.toNat - 1) 1 loading.net.txWaiting
    return { loading with
      net := { loading.net with currQueues, txWaiting }
      stores := (List.range' 1 (currQueues.toNat - 1)).map .queue }

def NetLoading.firstMulti (loading : NetLoading) : Nat :=
  (List.range loading.inUse.toInt.toNat).findIdx fun i => loading.macs (i * ethAlen) &&& 1 ≠ 0

structure SafeNetLoad (stream : List UInt8) : Prop where
  table : ∀ loading rest,
    (netLoadTable config virtioLoad version).run stream = .ok (loading, rest) →
    ∀ store ∈ loading.stores, store.Inside config
  queues : ∀ loading rest,
    (netLoadQueues config virtioLoad version).run stream = .ok (loading, rest) →
    (∀ store ∈ loading.stores, store.Inside config) ∧
      loading.firstMulti ≤ loading.inUse.toInt ∧ loading.inUse.toInt ≤ macTableEntries ∧
      1 ≤ loading.net.currQueues.toNat ∧ loading.net.currQueues.toNat ≤ config.maxQueues.toNat

/-- The stream has a table of `count` addresses, with `left` behind the count. -/
def HasTable (stream : List UInt8) (count : UInt32) (left : List UInt8) : Prop :=
  5 ≤ version ∧ ∃ n rest, (netLoadFront config virtioLoad version).run stream = .ok (n, rest) ∧
    get32 rest = (.ok (count, left) : Except NetLoadError _)

/-- The bytes that are there for a table fit in the addresses, or in a buffer of `count` bytes. -/
def TableFits (count : UInt32) (left : List UInt8) : Prop :=
  min (count.toInt32 * 6).toInt.toNat left.length ≤
    if count.toInt32 ≤ 64 then macTableEntries * ethAlen else count.toInt32.toInt.toNat

/-- The table fits; and if nothing up to the queues is refused, its count is not negative, and the
pairs are some, but no more than the device has. -/
structure NetStreamFits (stream : List UInt8) : Prop where
  table : ∀ count left, HasTable config virtioLoad version stream count left → TableFits count left
  counts : ∀ loading pairs rest,
    (netLoadPairs config virtioLoad version).run stream = .ok ((loading, pairs), rest) →
    (∀ count left, HasTable config virtioLoad version stream count left → 0 ≤ count.toInt32.toInt) ∧
    ∀ currQueues ∈ pairs, 1 ≤ currQueues.toNat ∧ currQueues.toNat ≤ config.maxQueues.toNat

variable {config virtioLoad version}

/-! ### What the stages leave alone -/

def KeepsQueues (n : VirtIONet) (stage : Decoder NetLoadError VirtIONet) : Prop :=
  Always stage fun after => after.currQueues = n.currQueues

theorem loadHeader_keeps (n : VirtIONet) : KeepsQueues n (loadHeader config n) :=
  .skip fun _ => .skip fun _ => .skip fun _ => .pure rfl

theorem loadModes_keeps (n : VirtIONet) : KeepsQueues n (loadModes version n) :=
  .skip fun _ => .skip fun _ => .skip fun _ => .pure rfl

theorem loadVlans_keeps (n : VirtIONet) : KeepsQueues n (loadVlans config version n) :=
  .skip fun _ => .skip fun _ => .skip fun _ => .pure rfl

theorem loadLateModes_keeps (n : VirtIONet) : KeepsQueues n (loadLateModes config version n) :=
  .skip fun _ => .skip fun _ => .skip fun _ => .skip fun _ => .skip fun _ => .skip fun _ =>
    .skip fun _ => .skip fun _ => .pure rfl

theorem netLoadFront_queues :
    Always (netLoadFront config virtioLoad version) fun n => n.currQueues = 1 := by
  rw [netLoadFront]
  split
  · rintro stream n rest ⟨⟩
  · refine .skip fun vdev => .bind (loadHeader_keeps _) fun n same stream after rest ran => ?_
    exact (loadModes_keeps n stream after rest ran).trans same

/-! ### The table of addresses -/

variable {stream rest left : List UInt8} {loading : NetLoading} {count : UInt32}

theorem HasTable.unique {other : UInt32} {otherLeft : List UInt8}
    (table : HasTable config virtioLoad version stream count left)
    (again : HasTable config virtioLoad version stream other otherLeft) :
    other = count ∧ otherLeft = left := by
  obtain ⟨-, n, rest, front, read⟩ := table
  obtain ⟨-, m, tail, frontAgain, readAgain⟩ := again
  cases front.symm.trans frontAgain
  cases read.symm.trans readAgain
  exact ⟨rfl, rfl⟩

theorem HasTable.forall_iff {P : UInt32 → List UInt8 → Prop}
    (table : HasTable config virtioLoad version stream count left) :
    (∀ other otherLeft, HasTable config virtioLoad version stream other otherLeft →
      P other otherLeft) ↔ P count left := by
  refine ⟨fun each => each _ _ table, fun holds other otherLeft again => ?_⟩
  obtain ⟨rfl, rfl⟩ := table.unique again
  exact holds

/-- The counters and the stores behind the table of addresses. -/
structure TableLoaded (config : NetConfig) (virtioLoad : Decoder LoadError VirtIODevice)
    (version : Nat) (stream : List UInt8) (loading : NetLoading) : Prop where
  stores : (∀ store ∈ loading.stores, store.Inside config) ↔
    ∀ count left, HasTable config virtioLoad version stream count left → TableFits count left
  inUse : 0 ≤ loading.inUse.toInt ↔
    ∀ count left, HasTable config virtioLoad version stream count left → 0 ≤ count.toInt32.toInt
  few : loading.inUse.toInt ≤ macTableEntries
  queues : loading.net.currQueues = 1

theorem netLoadTable_loaded
    (ran : (netLoadTable config virtioLoad version).run stream = .ok (loading, rest)) :
    TableLoaded config virtioLoad version stream loading := by
  obtain ⟨n, tail, front, ran⟩ := run_bind_ok.mp ran
  have queues := netLoadFront_queues _ _ _ front
  split at ran
  next known =>
    obtain ⟨count, left, read, ran⟩ := run_bind_ok.mp ran
    have table : HasTable config virtioLoad version stream count left :=
      ⟨known, n, tail, front, read⟩
    obtain ⟨data, after, taken, ran⟩ := run_bind_ok.mp ran
    cases taken
    split at ran
    next few =>
      cases ran
      refine ⟨?_, (table.forall_iff (P := fun count _ => 0 ≤ count.toInt32.toInt)).symm,
        Int32.le_iff_toInt_le.mp few, queues⟩
      rw [table.forall_iff, TableFits, if_pos few, List.forall_mem_singleton]
      simp only [NetStore.Inside, List.length_take]
    next many =>
      cases ran
      refine ⟨?_, ?_, Int.natCast_nonneg macTableEntries, queues⟩
      · rw [table.forall_iff, TableFits, if_neg many, List.forall_mem_singleton]
        simp only [NetStore.Inside, List.length_take]
      rw [table.forall_iff]
      have above : (64 : Int) < count.toInt32.toInt :=
        Int32.lt_iff_toInt_lt.mp (Int32.not_le.mp many)
      exact iff_of_true (Int.le_refl 0) (by omega)
  next old =>
    cases ran
    have none : ∀ count left, ¬ HasTable config virtioLoad version stream count left :=
      fun _ _ table => old table.1
    refine ⟨?_, ?_, Int.natCast_nonneg macTableEntries, queues⟩
    · exact iff_of_true (List.forall_mem_nil _) fun _ _ table => absurd table (none _ _)
    · exact iff_of_true (Int.le_refl 0) fun _ _ table => absurd table (none _ _)

theorem HasTable.loaded (table : HasTable config virtioLoad version stream count left) :
    ∃ loading rest, (netLoadTable config virtioLoad version).run stream = .ok (loading, rest) := by
  obtain ⟨known, n, tail, front, read⟩ := table
  have macs : ∃ loading rest, (netGetMacs n count.toInt32).run left = .ok (loading, rest) := by
    by_cases few : count.toInt32 ≤ 64
    · exact ⟨_, _, run_bind_ok.mpr ⟨_, _, rfl, by rw [if_pos few]; rfl⟩⟩
    · exact ⟨_, _, run_bind_ok.mpr ⟨_, _, rfl, by rw [if_neg few]; rfl⟩⟩
  obtain ⟨loading, rest, ran⟩ := macs
  refine ⟨loading, rest, run_bind_ok.mpr ⟨n, tail, front, ?_⟩⟩
  rw [if_pos known]
  exact run_bind_ok.mpr ⟨count, left, read, ran⟩

/-! ### The pairs of queues -/

theorem netLoadPairs_loaded {pairs : Option UInt16}
    (ran : (netLoadPairs config virtioLoad version).run stream = .ok ((loading, pairs), rest)) :
    (0 ≤ loading.inUse.toInt ↔ ∀ count left,
        HasTable config virtioLoad version stream count left → 0 ≤ count.toInt32.toInt) ∧
      loading.inUse.toInt ≤ macTableEntries ∧ loading.net.currQueues = 1 := by
  obtain ⟨table, left, loaded, ran⟩ := run_bind_ok.mp ran
  have fit := netLoadTable_loaded loaded
  obtain ⟨n, _, vlans, ran⟩ := run_bind_ok.mp ran
  obtain ⟨net, _, modes, ran⟩ := run_bind_ok.mp ran
  have same := (loadLateModes_keeps n _ _ _ modes).trans (loadVlans_keeps table.net _ _ _ vlans)
  have queues : net.currQueues = 1 := same.trans fit.queues
  split at ran
  · obtain ⟨_, _, -, ran⟩ := run_bind_ok.mp ran
    obtain ⟨_, _, -, ran⟩ := run_bind_ok.mp ran
    cases ran
    exact ⟨fit.inUse, fit.few, queues⟩
  · cases ran
    exact ⟨fit.inUse, fit.few, queues⟩

theorem getTxWaiting_total (count first : Nat) (old : Nat → UInt32) (stream : List UInt8) :
    ∃ txWaiting rest, (getTxWaiting count first old).run stream = .ok (txWaiting, rest) := by
  induction count generalizing first old stream with
  | zero => exact ⟨old, stream, rfl⟩
  | succ count ih =>
    obtain ⟨txWaiting, rest, ran⟩ := ih (first + 1) _ _
    exact ⟨txWaiting, rest, ran⟩

theorem firstMulti_le_iff (loading : NetLoading) :
    loading.firstMulti ≤ loading.inUse.toInt ↔ 0 ≤ loading.inUse.toInt := by
  have index : loading.firstMulti ≤ (List.range loading.inUse.toInt.toNat).length :=
    List.findIdx_le_length
  rw [List.length_range] at index
  omega

end Stages

/-- A stream is loaded inside the device, and leaves its counters in bounds, exactly if its counts
fit. -/
theorem virtioNetLoad_inside_iff (config : NetConfig)
    (virtioLoad : Decoder LoadError VirtIODevice) (version : Nat) (stream : List UInt8) :
    SafeNetLoad config virtioLoad version stream ↔
      NetStreamFits config virtioLoad version stream := by
  constructor
  · rintro ⟨table, queues⟩
    refine ⟨fun count left found => ?_, fun loading pairs rest front => ?_⟩
    · obtain ⟨loading, rest, ran⟩ := found.loaded
      exact (netLoadTable_loaded ran).stores.mp (table loading rest ran) count left found
    obtain ⟨inUse, -, -⟩ := netLoadPairs_loaded front
    cases pairs with
    | none =>
      obtain ⟨-, first, -⟩ := queues _ _ (run_bind_ok.mpr ⟨_, _, front, rfl⟩)
      exact ⟨inUse.mp ((firstMulti_le_iff loading).mp first), by rintro _ ⟨⟩⟩
    | some currQueues =>
      obtain ⟨txWaiting, after, waiting⟩ :=
        getTxWaiting_total (currQueues.toNat - 1) 1 loading.net.txWaiting rest
      obtain ⟨-, first, -, least, most⟩ := queues _ _
        (run_bind_ok.mpr ⟨_, _, front, run_bind_ok.mpr ⟨_, _, waiting, rfl⟩⟩)
      refine ⟨inUse.mp ((firstMulti_le_iff loading).mp first), ?_⟩
      rintro _ ⟨⟩
      exact ⟨least, most⟩
  · intro fits
    refine ⟨fun loading rest ran => (netLoadTable_loaded ran).stores.mpr fits.table,
      fun loading rest ran => ?_⟩
    obtain ⟨⟨table, pairs⟩, left, front, ran⟩ := run_bind_ok.mp ran
    obtain ⟨inUse, few, queues⟩ := netLoadPairs_loaded front
    obtain ⟨positive, bounds⟩ := fits.counts _ _ _ front
    have first := (firstMulti_le_iff table).mpr (inUse.mpr positive)
    cases pairs with
    | none =>
      cases ran
      have one : table.net.currQueues.toNat = 1 := congrArg UInt16.toNat queues
      exact ⟨List.forall_mem_nil _, first, few, by rw [one], by rw [one]; exact config.positive⟩
    | some currQueues =>
      obtain ⟨least, most⟩ := bounds _ rfl
      obtain ⟨txWaiting, after, -, ran⟩ := run_bind_ok.mp ran
      cases ran
      refine ⟨fun store member => ?_, first, few, least, most⟩
      obtain ⟨i, inRange, rfl⟩ := List.mem_map.mp member
      rw [List.mem_range'_1] at inRange
      exact show i < config.maxQueues.toNat by omega

/-- A device of two pairs, and the part of a stream in front of a table or the queues. -/
def pairNet : NetConfig := { plainNet with maxQueues := 2, positive := by decide }

def netStream (version : Nat) (counts : List UInt8) : List UInt8 :=
  List.replicate (if 5 ≤ version then 24 else 14) 0 ++ counts

/-- Two pairs; and -1 addresses in front of another number of pairs, which is refused. -/
theorem virtioNetLoad_inside_pair :
    SafeNetLoad pairNet (pure freshDevice) 2 (netStream 2 [0, 2, 0, 2]) ∧
      SafeNetLoad pairNet (pure freshDevice) 5 (netStream 5 [255, 255, 255, 255, 0, 3]) := by
  constructor
  · refine (virtioNetLoad_inside_iff _ _ _ _).mpr ⟨fun _ _ table => absurd table.1 (by decide),
      fun loading pairs rest ran => ⟨fun _ _ table => absurd table.1 (by decide), ?_⟩⟩
    have read : (netLoadPairs pairNet (pure freshDevice) 2).run (netStream 2 [0, 2, 0, 2]) =
        .ok ((_, some 2), []) := rfl
    cases read.symm.trans ran
    rintro _ ⟨⟩
    decide
  · have table : HasTable pairNet (pure freshDevice) 5 (netStream 5 [255, 255, 255, 255, 0, 3])
        0xffffffff [0, 3] := ⟨by decide, _, _, rfl, rfl⟩
    refine (virtioNetLoad_inside_iff _ _ _ _).mpr ⟨?_, fun loading pairs rest ran => ?_⟩
    · rw [table.forall_iff, TableFits]
      decide
    · have refused : (netLoadPairs pairNet (pure freshDevice) 5).run
          (netStream 5 [255, 255, 255, 255, 0, 3]) = .error .maxQueues := rfl
      cases refused.symm.trans ran

/-- Streams with 65 addresses in 66 bytes, with -1 addresses, with no pair, and with more pairs
than there are. -/
theorem virtioNetLoad_outside :
    ¬ SafeNetLoad pairNet (pure freshDevice) 5
      (netStream 5 ([0, 0, 0, 65] ++ List.replicate 66 0)) ∧
    ¬ SafeNetLoad pairNet (pure freshDevice) 5 (netStream 5 [255, 255, 255, 255, 0, 2, 0, 2]) ∧
    ¬ SafeNetLoad pairNet (pure freshDevice) 2 (netStream 2 [0, 2, 0, 0]) ∧
    ¬ SafeNetLoad pairNet (pure freshDevice) 2 (netStream 2 [0, 2, 0, 3]) := by
  refine ⟨fun safe => ?_, fun safe => ?_, fun safe => ?_, fun safe => ?_⟩
  · have written : 66 ≤ 65 := safe.table _ _ rfl _ (.head _)
    omega
  · have first : (0 : Int) ≤ -1 := (safe.queues _ _ rfl).2.1
    omega
  · have pairs : 1 ≤ 0 := (safe.queues _ _ rfl).2.2.2.1
    omega
  · have pair : 2 < 2 := (safe.queues _ _ rfl).1 (.queue 2) (.tail _ (.head _))
    omega

end VhostUser.Qemu.Virtio
