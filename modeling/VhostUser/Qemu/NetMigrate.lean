import VhostUser.Qemu.NetFilter
import VhostUser.Qemu.VirtioMigrate

/-!
Contract: saving a virtio network device to the migration stream and loading it into a new
device of the same configuration (`virtio_net_save`, `virtio_net_load`), as far as the receive
filter shows.

The stream has the table of addresses and not where it is split: `virtio_net_load` splits it
at the first multicast address.

Owns: which filters come back.

Does not own: the part of the stream that `virtio_save` writes.
-/

namespace VhostUser.Qemu.Virtio

open VhostUser.Lib
open VhostUser.Lib.ByteImage (slice overlay)
open VhostUser.Lib.Decoder

/-! ### The stream -/

def virtioNetVmVersion : Nat := 11

inductive NetLoadError where
  /-- `-EINVAL`. -/
  | version (versionId : Nat)
  | virtio (error : LoadError)
  | vnetHdr
  | ufo
  | maxQueues
  /-- A count that is negative as an `int`, or one that the source would write out of bounds
  with. -/
  | outOfBounds (count : UInt32)

def saveHeader (n : VirtIONet) : List UInt8 :=
  slice n.mac 0 ethAlen ++ (put32 (n.txWaiting 0) ++ put32 n.mergeableRxBufs)

def saveModes (n : VirtIONet) : List UInt8 := put16 n.status ++ ([n.promisc] ++ [n.allmulti])

def saveMacTable (n : VirtIONet) : List UInt8 :=
  put32 (UInt32.ofNat n.macTable.inUse) ++ slice n.macTable.macs 0 (n.macTable.inUse * ethAlen)

def saveVlans (config : NetConfig) (n : VirtIONet) : List UInt8 :=
  slice n.vlans 0 (maxVlan / 8) ++ put32 config.hasVnetHdr

def saveLateModes (n : VirtIONet) : List UInt8 :=
  [n.macTable.multiOverflow] ++ ([n.macTable.uniOverflow] ++ ([n.alluni] ++ ([n.nomulti] ++
    ([n.nouni] ++ ([n.nobcast] ++ [n.hasUfo])))))

def saveQueues (config : NetConfig) (n : VirtIONet) : List UInt8 :=
  if 1 < config.maxQueues then
    put16 config.maxQueues ++ (put16 n.currQueues ++
      (List.range' 1 (n.currQueues.toNat - 1)).flatMap fun i => put32 (n.txWaiting i))
  else []

def saveOffloads (n : VirtIONet) : List UInt8 :=
  if hasFeature n.guestFeatures 2 then put64 n.currGuestOffloads else []

/-- `virtio_net_save`, behind what `virtio_save` wrote. -/
def virtioNetSave (config : NetConfig) (virtio : List UInt8) (n : VirtIONet) : List UInt8 :=
  virtio ++ (saveHeader n ++ (saveModes n ++ (saveMacTable n ++ (saveVlans config n ++
    (saveLateModes n ++ (saveQueues config n ++ saveOffloads n))))))

/-- A field that streams have from version `first` on. -/
def getSince {α : Type} (version first : Nat) (old : α) (field : Decoder NetLoadError α) :
    Decoder NetLoadError α :=
  if first ≤ version then field else pure old

def getBuffer (count : Nat) (old : ByteImage) : Decoder NetLoadError ByteImage := do
  let data ← takeBytes count
  return overlay data old

def loadHeader (config : NetConfig) (n : VirtIONet) : Decoder NetLoadError VirtIONet := do
  let mac ← getBuffer ethAlen n.mac
  let txWaiting ← get32
  let mergeableRxBufs ← get32
  return virtioNetSetMrgRxBufs config mergeableRxBufs
    { n with mac, txWaiting := Function.update n.txWaiting 0 txWaiting }

/-- A mode was a word before version 8. -/
def getMode (version : Nat) (old : UInt8) : Decoder NetLoadError UInt8 :=
  getSince version 4 old (if version < 8 then UInt32.toUInt8 <$> get32 else takeByte)

def loadModes (version : Nat) (n : VirtIONet) : Decoder NetLoadError VirtIONet := do
  let status ← getSince version 3 n.status get16
  let promisc ← getMode version n.promisc
  let allmulti ← getMode version n.allmulti
  return { n with status, promisc, allmulti }

/-- The table of an image. One that is too long is read into a buffer of a byte an entry. -/
def getMacTable (old : MacTable) : Decoder NetLoadError MacTable := do
  let inUse ← get32
  check (inUse ≤ 64) (.outOfBounds inUse)
  let macs ← getBuffer (inUse.toNat * ethAlen) old.macs
  return { old with inUse := inUse.toNat, macs }

def loadMacTable (version : Nat) (n : VirtIONet) : Decoder NetLoadError VirtIONet := do
  let macTable ← getSince version 5 n.macTable (getMacTable n.macTable)
  return { n with macTable }

def loadVlans (config : NetConfig) (version : Nat) (n : VirtIONet) :
    Decoder NetLoadError VirtIONet := do
  let vlans ← getSince version 6 n.vlans (getBuffer (maxVlan / 8) n.vlans)
  let hasVnetHdr ← getSince version 7 0 get32
  check (hasVnetHdr = 0 || config.hasVnetHdr ≠ 0) .vnetHdr
  return { n with vlans }

/-- `peer_has_ufo` notes what the peer has. -/
def loadLateModes (config : NetConfig) (version : Nat) (n : VirtIONet) :
    Decoder NetLoadError VirtIONet := do
  let multiOverflow ← getSince version 9 n.macTable.multiOverflow takeByte
  let uniOverflow ← getSince version 9 n.macTable.uniOverflow takeByte
  let alluni ← getSince version 10 n.alluni takeByte
  let nomulti ← getSince version 10 n.nomulti takeByte
  let nouni ← getSince version 10 n.nouni takeByte
  let nobcast ← getSince version 10 n.nobcast takeByte
  let ufo ← getSince version 11 0 takeByte
  check (ufo = 0 || config.peerHasUfo ≠ 0) .ufo
  return { n with
    macTable := { n.macTable with multiOverflow, uniOverflow }
    alluni, nomulti, nouni, nobcast
    hasUfo := if ufo ≠ 0 then config.peerHasUfo else n.hasUfo }

/-- The loop over the queues, for `count` more of them from queue `i` on. -/
def getTxWaiting : Nat → Nat → (Nat → UInt32) → Decoder NetLoadError (Nat → UInt32)
  | 0, _, txWaiting => pure txWaiting
  | count + 1, i, txWaiting => do
      let waiting ← get32
      getTxWaiting count (i + 1) (Function.update txWaiting i waiting)

def loadQueues (config : NetConfig) (n : VirtIONet) : Decoder NetLoadError VirtIONet :=
  if 1 < config.maxQueues then do
    let maxQueues ← get16
    check (config.maxQueues = maxQueues) .maxQueues
    let currQueues ← get16
    check (currQueues ≤ config.maxQueues) (.outOfBounds currQueues.toUInt32)
    let txWaiting ← getTxWaiting (currQueues.toNat - 1) 1 n.txWaiting
    return { n with currQueues, txWaiting }
  else pure n

def loadOffloads (n : VirtIONet) : Decoder NetLoadError VirtIONet := do
  let currGuestOffloads ←
    if hasFeature n.guestFeatures 2 then get64
    else pure (virtioNetGuestOffloadsByFeatures n.guestFeatures)
  return { n with currGuestOffloads }

def findFirstMulti (n : VirtIONet) : VirtIONet :=
  { n with
    macTable := { n.macTable with
      firstMulti := (List.range n.macTable.inUse).findIdx
        fun i => n.macTable.macs (i * ethAlen) &&& 1 ≠ 0 } }

/-- `virtio_net_load`. `virtioLoad` is `virtio_load`, which calls `virtio_net_set_features`. -/
def virtioNetLoad (config : NetConfig) (virtioLoad : Decoder LoadError VirtIODevice)
    (versionId : Nat) (n : VirtIONet) : Decoder NetLoadError (VirtIODevice × VirtIONet) :=
  if versionId < 2 || virtioNetVmVersion < versionId then throw (.version versionId)
  else do
    let vdev ← virtioLoad.adaptError .virtio
    let n ← loadHeader config (virtioNetSetFeatures config vdev.guestFeatures n)
    let n ← loadModes versionId n
    let n ← loadMacTable versionId n
    let n ← loadVlans config versionId n
    let n ← loadLateModes config versionId n
    let n ← loadQueues config n
    let n ← loadOffloads n
    return (vdev, findFirstMulti n)

/-! ### Reading back -/

theorem reads_getSince {α : Type} {first : Nat} {old value : α} {field : Decoder NetLoadError α}
    {bytes : List UInt8} (known : first ≤ virtioNetVmVersion) (reads : Reads field bytes value) :
    Reads (getSince virtioNetVmVersion first old field) bytes value := by
  rw [getSince, if_pos known]
  exact reads

theorem reads_getBuffer (image old : ByteImage) (count : Nat) :
    Reads (getBuffer count old) (slice image 0 count) (overlay (slice image 0 count) old) := by
  have taken := @reads_takeBytes NetLoadError (slice image 0 count)
  rw [ByteImage.slice_length] at taken
  exact taken.bind_last (Reads.pure _)

theorem reads_getMode (old value : UInt8) : Reads (getMode virtioNetVmVersion old) [value] value :=
  reads_getSince (by decide) (reads_takeByte value)

theorem reads_getTxWaiting (saved : Nat → UInt32) (count first : Nat) (old : Nat → UInt32) :
    Reads (getTxWaiting count first old)
      ((List.range' first count).flatMap fun i => put32 (saved i))
      (fun i => if first ≤ i ∧ i < first + count then saved i else old i) := by
  induction count generalizing first old with
  | zero =>
    have same : (fun i => if first ≤ i ∧ i < first + 0 then saved i else old i) = old := by
      funext i
      rw [if_neg (by omega)]
    rw [same]
    exact Reads.pure old
  | succ count ih =>
    have later := ih (first + 1) (Function.update old first (saved first))
    have split : (fun i => if first + 1 ≤ i ∧ i < first + 1 + count then saved i
        else Function.update old first (saved first) i) =
        fun i => if first ≤ i ∧ i < first + (count + 1) then saved i else old i := by
      funext i
      rcases eq_or_ne i first with rfl | other
      · rw [Function.update_self, ite_self, if_pos (by omega)]
      · rw [Function.update_of_ne other]
        simp only [show first + 1 ≤ i ∧ i < first + 1 + count ↔
          first ≤ i ∧ i < first + (count + 1) by omega]
    rw [split] at later
    rw [List.range'_succ, List.flatMap_cons]
    exact (reads_get32 _).bind later

section Stages

variable (config : NetConfig) (n new : VirtIONet)

/-! What each stage leaves of a saved device and a new one. -/

def restoreHeader : VirtIONet :=
  virtioNetSetMrgRxBufs config n.mergeableRxBufs
    { new with
      mac := overlay (slice n.mac 0 ethAlen) new.mac
      txWaiting := Function.update new.txWaiting 0 (n.txWaiting 0) }

def restoreModes : VirtIONet :=
  { new with status := n.status, promisc := n.promisc, allmulti := n.allmulti }

def restoreMacTable : VirtIONet :=
  { new with
    macTable := { new.macTable with
      inUse := n.macTable.inUse
      macs := overlay (slice n.macTable.macs 0 (n.macTable.inUse * ethAlen)) new.macTable.macs } }

def restoreVlans : VirtIONet :=
  { new with vlans := overlay (slice n.vlans 0 (maxVlan / 8)) new.vlans }

def restoreLateModes : VirtIONet :=
  { new with
    macTable := { new.macTable with
      multiOverflow := n.macTable.multiOverflow
      uniOverflow := n.macTable.uniOverflow }
    alluni := n.alluni
    nomulti := n.nomulti
    nouni := n.nouni
    nobcast := n.nobcast
    hasUfo := if n.hasUfo ≠ 0 then config.peerHasUfo else new.hasUfo }

def restoreNetQueues : VirtIONet :=
  { new with
    currQueues := if 1 < config.maxQueues then n.currQueues else new.currQueues
    txWaiting :=
      if 1 < config.maxQueues then fun i =>
        if 1 ≤ i ∧ i < 1 + (n.currQueues.toNat - 1) then n.txWaiting i else new.txWaiting i
      else new.txWaiting }

def restoreOffloads : VirtIONet :=
  { new with
    currGuestOffloads :=
      if hasFeature n.guestFeatures 2 then n.currGuestOffloads
      else virtioNetGuestOffloadsByFeatures n.guestFeatures }

variable {config n}

theorem reads_loadHeader :
    Reads (loadHeader config new) (saveHeader n) (restoreHeader config n new) :=
  (reads_getBuffer _ _ _).bind ((reads_get32 _).bind ((reads_get32 _).bind_last (Reads.pure _)))

theorem reads_loadModes :
    Reads (loadModes virtioNetVmVersion new) (saveModes n) (restoreModes n new) :=
  (reads_getSince (by decide) (reads_get16 _)).bind ((reads_getMode _ _).bind
    ((reads_getMode _ _).bind_last (Reads.pure _)))

theorem reads_loadMacTable (few : n.macTable.inUse ≤ macTableEntries) :
    Reads (loadMacTable virtioNetVmVersion new) (saveMacTable n) (restoreMacTable n new) := by
  have count : (UInt32.ofNat n.macTable.inUse).toNat = n.macTable.inUse := by
    rw [macTableEntries] at few
    rw [UInt32.toNat_ofNat']
    omega
  have fits : decide (UInt32.ofNat n.macTable.inUse ≤ 64) = true := by
    rw [decide_eq_true_eq, UInt32.le_iff_toNat_le, count]
    exact few
  have table : Reads (getMacTable new.macTable) (saveMacTable n)
      (restoreMacTable n new).macTable := by
    refine (reads_get32 _).bind ((reads_check fits _).bind_nil ?_)
    rw [count]
    exact (reads_getBuffer _ _ _).bind_last (Reads.pure _)
  exact (reads_getSince (by decide) table).bind_last (Reads.pure _)

theorem reads_loadVlans :
    Reads (loadVlans config virtioNetVmVersion new) (saveVlans config n)
      (restoreVlans n new) := by
  have passes : (decide (config.hasVnetHdr = 0) || decide (config.hasVnetHdr ≠ 0)) = true := by
    simp
  exact (reads_getSince (by decide) (reads_getBuffer _ _ _)).bind
    ((reads_getSince (by decide) (reads_get32 _)).bind_last
      ((reads_check passes _).bind_nil (Reads.pure _)))

theorem reads_loadLateModes (peer : n.hasUfo = config.peerHasUfo) :
    Reads (loadLateModes config virtioNetVmVersion new) (saveLateModes n)
      (restoreLateModes config n new) := by
  have passes : (decide (n.hasUfo = 0) || decide (config.peerHasUfo ≠ 0)) = true := by
    rw [peer]
    simp
  have byte {first : Nat} (old value : UInt8) (known : first ≤ virtioNetVmVersion) :
      Reads (getSince virtioNetVmVersion first old takeByte) [value] value :=
    reads_getSince known (reads_takeByte value)
  exact (byte _ _ (by decide)).bind ((byte _ _ (by decide)).bind ((byte _ _ (by decide)).bind
    ((byte _ _ (by decide)).bind ((byte _ _ (by decide)).bind ((byte _ _ (by decide)).bind
      ((byte _ _ (by decide)).bind_last ((reads_check passes _).bind_nil (Reads.pure _))))))))

theorem reads_loadQueues (queues : n.currQueues.toNat ≤ config.maxQueues.toNat) :
    Reads (loadQueues config new) (saveQueues config n) (restoreNetQueues config n new) := by
  rw [loadQueues, saveQueues, restoreNetQueues]
  by_cases multi : 1 < config.maxQueues
  · simp only [if_pos multi]
    have fits : decide (n.currQueues ≤ config.maxQueues) = true :=
      decide_eq_true (UInt16.le_iff_toNat_le.mpr queues)
    exact (reads_get16 _).bind ((reads_check (decide_eq_true rfl) _).bind_nil
      ((reads_get16 _).bind ((reads_check fits _).bind_nil
        ((reads_getTxWaiting _ _ _ _).bind_last (Reads.pure _)))))
  · simp only [if_neg multi]
    exact Reads.pure new

theorem reads_loadOffloads (features : new.guestFeatures = n.guestFeatures) :
    Reads (loadOffloads new) (saveOffloads n) (restoreOffloads n new) := by
  rw [loadOffloads, saveOffloads, restoreOffloads, features]
  split
  · exact (reads_get64 _).bind_last (Reads.pure _)
  · exact (Reads.pure _).bind_last (Reads.pure _)

end Stages

theorem findFirstMulti_splitAtGroup (n : VirtIONet) : (findFirstMulti n).macTable.SplitAtGroup := by
  refine ⟨?_, fun i before => ?_, fun inside => ?_⟩
  · have short := @List.findIdx_le_length _
      (fun i => decide (n.macTable.macs (i * ethAlen) &&& 1 ≠ 0)) (List.range n.macTable.inUse)
    rwa [List.length_range] at short
  · have single := List.not_of_lt_findIdx before
    rw [List.getElem_range] at single
    exact single
  · have group := @List.findIdx_getElem _
      (fun i => decide (n.macTable.macs (i * ethAlen) &&& 1 ≠ 0)) (List.range n.macTable.inUse)
      (by rw [List.length_range]; exact inside)
    rw [List.getElem_range] at group
    exact group

theorem setMrgRxBufs_twice (config : NetConfig) (mergeableRxBufs : UInt32) (n : VirtIONet) :
    (virtioNetSetMrgRxBufs config mergeableRxBufs
      (virtioNetSetMrgRxBufs config mergeableRxBufs n)).hostHdrLen =
      (virtioNetSetMrgRxBufs config mergeableRxBufs n).hostHdrLen := by
  simp only [virtioNetSetMrgRxBufs]
  by_cases settable : (decide (config.hasVnetHdr ≠ 0) &&
      config.tapHasVnetHdrLen (if mergeableRxBufs ≠ 0 then 12 else 10)) = true
  · rw [if_pos settable, if_pos settable]
  · rw [if_neg settable]

theorem Consistent.header_twice {config : NetConfig} {n : VirtIONet}
    (consistent : Consistent config n) :
    (virtioNetSetMrgRxBufs config n.mergeableRxBufs (virtioNetSetFeatures config n.guestFeatures
      (virtioNetDeviceRealize config))).hostHdrLen = n.hostHdrLen := by
  rw [consistent.header, consistent.mergeable, virtioNetSetFeatures]
  exact setMrgRxBufs_twice _ _ _

/-- The stream of a device loads into a new one, which differs in the split of the table. -/
theorem reads_virtioNetLoad {config : NetConfig} {n : VirtIONet} {vdev : VirtIODevice}
    {virtioLoad : Decoder LoadError VirtIODevice} {virtio : List UInt8}
    (consistent : Consistent config n) (reads : Reads virtioLoad virtio vdev)
    (features : vdev.guestFeatures = n.guestFeatures) :
    ∃ loaded, Reads (virtioNetLoad config virtioLoad virtioNetVmVersion
        (virtioNetDeviceRealize config)) (virtioNetSave config virtio n) (vdev, loaded) ∧
      SplitApart n loaded ∧ loaded.macTable.SplitAtGroup := by
  refine ⟨_, (reads.adaptError _).bind ((reads_loadHeader _).bind ((reads_loadModes _).bind
    ((reads_loadMacTable _ consistent.few).bind ((reads_loadVlans _).bind
      ((reads_loadLateModes _ consistent.ufo).bind ((reads_loadQueues _ consistent.queues).bind
        ((reads_loadOffloads _ features).bind_last (Reads.pure _)))))))), ?_,
    findFirstMulti_splitAtGroup _⟩
  exact {
    hostHdrLen := by
      rw [← consistent.header_twice, ← features]
      rfl
    promisc := rfl
    allmulti := rfl
    alluni := rfl
    nomulti := rfl
    nouni := rfl
    nobcast := rfl
    multiOverflow := rfl
    uniOverflow := rfl
    inUse := rfl
    entry := fun i inside => by
      refine ByteImage.slice_received _ _ ?_
      rw [← Nat.succ_mul]
      exact Nat.mul_le_mul_right _ inside
    mac := ByteImage.slice_received _ _ (Nat.le_refl _)
    vlans := fun k inside => by
      simp only [findFirstMulti, restoreOffloads, restoreNetQueues, restoreLateModes, restoreVlans]
      exact ByteImage.overlay_slice n.vlans _ inside }

/-- Wherever `virtio_load` reads what `virtio_save` wrote, in every state that the control queue
reaches, the stream of `virtio_net_save` loads into a new device, and the filter comes back
exactly if it does not depend on the split of the table. -/
theorem virtioNetLoad_keeps_filter_iff {config : NetConfig} {n : VirtIONet} {bus : MigrationBus}
    {lduw : UInt64 → UInt16} {vdev new restored : VirtIODevice}
    (reached : (filterMachine config).Reached Machine.anyAction n)
    (reads : Reads (virtioLoad bus lduw new) (virtioSave bus vdev) restored)
    (features : restored.guestFeatures = n.guestFeatures) :
    ∃ loaded, (virtioNetLoad config (virtioLoad bus lduw new) virtioNetVmVersion
        (virtioNetDeviceRealize config)).run (virtioNetSave config (virtioSave bus vdev) n) =
        .ok ((restored, loaded), []) ∧
      ((∀ buf, receiveFilter loaded buf = receiveFilter n buf) ↔ n.SplitKept) := by
  have consistent := consistent_of_reached reached
  obtain ⟨loaded, loads, apart, grouped⟩ := reads_virtioNetLoad consistent reads features
  have run := loads []
  rw [List.append_nil] at run
  exact ⟨loaded, run, apart.agree_iff_kept grouped consistent.split⟩

/-! ### Two tables -/

def plainNet : NetConfig where
  macaddr := overlay [0x52, 0x54, 0x00, 0x12, 0x34, 0x56] fun _ => 0
  maxQueues := 1
  positive := by decide
  hasVnetHdr := 0
  tapHasVnetHdrLen _ := false
  tapHasUfo := 0

def sortedTable : List CtrlCommand :=
  [⟨.err, [0, 0, 0], 1⟩,
    ⟨.err, [1, 0, 1, 0, 0, 0, 0x02, 0, 0, 0, 0, 0x01, 1, 0, 0, 0, 0x01, 0, 0x5e, 0, 0, 0x01], 1⟩]

def unsortedTable : List CtrlCommand :=
  [⟨.err, [0, 0, 0], 1⟩, ⟨.err, [1, 0, 1, 0, 0, 0, 0x01, 0, 0x5e, 0, 0, 0x01, 0, 0, 0, 0], 1⟩]

theorem oneQueue_reads {new : VirtIODevice} (created : oneQueue.create = some new) :
    Reads (virtioLoad plainBus (fun _ => 0) new) (virtioSave plainBus new)
      (loadedDevice plainBus new oneQueue.sizes.length new) := by
  have start : (deviceMachine oneQueue plainBus.toTransport).Reached Machine.anyAction new :=
    .start created
  have passes : (oneQueue.create.map fun new =>
      decide (∀ i < oneQueue.sizes.length, PassesLoad (fun _ => 0) (new.vq i))) = some true := by
    decide +kernel
  rw [created] at passes
  exact reads_virtioLoad (reached_shaped start) (by decide)
    (of_decide_eq_true (Option.some.inj passes)) (reached_shaped start).config

def plainStart : VirtIONet := virtioNetSetFeatures plainNet 0 (virtioNetDeviceRealize plainNet)

theorem plainStart_reached : (filterMachine plainNet).Reached Machine.anyAction plainStart := by
  have start : (filterMachine plainNet).start plainStart := ⟨0, rfl⟩
  exact .start start

/-- No sequence of commands takes the counters out of their bounds, and the device executes each
command that has its headers and less data than 4 GiB without the size of the table; with more the
sum of the counts can wrap. -/
theorem filterMachine_bounds {config : NetConfig} {n : VirtIONet}
    (reached : (filterMachine config).Reached Machine.anyAction n) :
    n.macTable.firstMulti ≤ n.macTable.inUse ∧ n.macTable.inUse ≤ macTableEntries ∧
      n.currQueues ≤ config.maxQueues ∧
      ∀ command : CtrlCommand, 0 < command.inSize → 2 ≤ command.out.length →
        command.out.length < 2 ^ 32 - macTableEntries * ethAlen →
        ∃ next, (filterMachine config).step n command = some next := by
  have consistent := consistent_of_reached reached
  refine ⟨consistent.split, consistent.few, UInt16.le_iff_toNat_le.mpr consistent.queues, ?_⟩
  intro command ack header short
  obtain ⟨after, answered⟩ := handleCtrl_answers ack header short
  exact ⟨after.2, Option.map_eq_some_iff.mpr ⟨after, answered, rfl⟩⟩

/-- After two commands, the second of which sets a table of two addresses. -/
theorem filterMachine_bounds_sorted :
    ∃ n, (filterMachine plainNet).Reached Machine.anyAction n ∧ n.macTable.firstMulti = 1 ∧
      n.macTable.inUse = 2 ∧ n.macTable.firstMulti ≤ n.macTable.inUse ∧
      n.macTable.inUse ≤ macTableEntries ∧
      ∃ next, (filterMachine plainNet).step n ⟨.ok, [0, 0, 1], 1⟩ = some next := by
  have ends : ((filterMachine plainNet).run sortedTable plainStart).map (fun n =>
      (n.macTable.firstMulti, n.macTable.inUse)) = some (1, 2) := by
    decide +kernel
  obtain ⟨n, reached, values⟩ := plainStart_reached.evaluate (Machine.runAllowed_any _ _) ends
  obtain ⟨firstMulti, inUse⟩ := Prod.mk.inj values
  obtain ⟨split, few, -, executes⟩ := filterMachine_bounds reached
  exact ⟨n, reached, firstMulti, inUse, split, few,
    executes ⟨.ok, [0, 0, 1], 1⟩ (by decide) (by decide) (by decide)⟩

theorem virtioNetLoad_keeps_filter_sorted :
    ∃ n vdev loaded, (filterMachine plainNet).Reached Machine.anyAction n ∧
      (virtioNetLoad plainNet (virtioLoad plainBus (fun _ => 0) vdev) virtioNetVmVersion
        (virtioNetDeviceRealize plainNet)).run
          (virtioNetSave plainNet (virtioSave plainBus vdev) n) =
        .ok ((loadedDevice plainBus vdev oneQueue.sizes.length vdev, loaded), []) ∧
      n.promisc = 0 ∧ n.macTable.inUse = 2 ∧
      ∀ buf, receiveFilter loaded buf = receiveFilter n buf := by
  have ends : ((filterMachine plainNet).run sortedTable plainStart).map (fun n =>
      (n.guestFeatures, n.promisc, n.macTable.inUse, decide n.SplitKept)) =
      some (0, 0, 2, true) := by
    decide +kernel
  obtain ⟨n, reached, values⟩ := plainStart_reached.evaluate (Machine.runAllowed_any _ _) ends
  simp only [Prod.mk.injEq, decide_eq_true_eq] at values
  obtain ⟨noFeatures, promisc, inUse, kept⟩ := values
  have creates : (oneQueue.create.map (·.guestFeatures)) = some 0 := by decide +kernel
  obtain ⟨vdev, created, acknowledged⟩ := Option.map_eq_some_iff.mp creates
  have features : (loadedDevice plainBus vdev oneQueue.sizes.length vdev).guestFeatures =
      n.guestFeatures := by
    rw [noFeatures, loadedDevice, restoreQueues, acknowledged]
    rfl
  obtain ⟨loaded, run, keeps⟩ :=
    virtioNetLoad_keeps_filter_iff reached (oneQueue_reads created) features
  exact ⟨n, vdev, loaded, reached, run, promisc, inUse, keeps.mpr kept⟩

/-- The multicast address that the guest put in the unicast part was not accepted, and is
accepted after the migration. -/
theorem virtioNetLoad_accepts_more :
    ¬ ∀ (config : NetConfig) (n : VirtIONet) (bus : MigrationBus) (lduw : UInt64 → UInt16)
      (vdev new restored : VirtIODevice),
      (filterMachine config).Reached Machine.anyAction n →
      Reads (virtioLoad bus lduw new) (virtioSave bus vdev) restored →
      restored.guestFeatures = n.guestFeatures →
      ∃ loaded, (virtioNetLoad config (virtioLoad bus lduw new) virtioNetVmVersion
          (virtioNetDeviceRealize config)).run (virtioNetSave config (virtioSave bus vdev) n) =
          .ok ((restored, loaded), []) ∧
        ∀ buf, receiveFilter loaded buf = receiveFilter n buf := by
  intro always
  have ends : (oneQueue.create.bind fun vdev =>
      ((filterMachine plainNet).run unsortedTable plainStart).map fun n =>
        (vdev.guestFeatures, n.guestFeatures,
          receiveFilter n (packetTo 0 [0x01, 0, 0x5e, 0, 0, 0x01]),
          ((virtioNetLoad plainNet (virtioLoad plainBus (fun _ => 0) vdev) virtioNetVmVersion
            (virtioNetDeviceRealize plainNet)).run
              (virtioNetSave plainNet (virtioSave plainBus vdev) n)).toOption.map fun loaded =>
                receiveFilter loaded.1.2 (packetTo 0 [0x01, 0, 0x5e, 0, 0, 0x01]))) =
      some (0, 0, false, some true) := by
    decide +kernel
  obtain ⟨vdev, created, later⟩ := Option.bind_eq_some_iff.mp ends
  obtain ⟨n, reached, values⟩ := plainStart_reached.evaluate (Machine.runAllowed_any _ _) later
  simp only [Prod.mk.injEq] at values
  obtain ⟨acknowledged, noFeatures, rejected, accepted⟩ := values
  have features : (loadedDevice plainBus vdev oneQueue.sizes.length vdev).guestFeatures =
      n.guestFeatures := by
    rw [noFeatures, loadedDevice, restoreQueues, acknowledged]
    rfl
  obtain ⟨loaded, run, keeps⟩ :=
    always plainNet n plainBus _ vdev vdev _ reached (oneQueue_reads created) features
  rw [run] at accepted
  have same : receiveFilter n (packetTo 0 [0x01, 0, 0x5e, 0, 0, 0x01]) = true :=
    (keeps _).symm.trans (Option.some.inj accepted)
  rw [rejected] at same
  cases same

end VhostUser.Qemu.Virtio
