import VhostUser.Lib.ByteImage
import VhostUser.Lib.Machine
import Mathlib.Data.List.TakeWhile

/-!
Contract: the receive filter of a virtio network device and the commands of its control queue
that set it (`virtio-net.c`: `receive_filter`, `virtio_net_handle_rx_mode`,
`virtio_net_handle_mac`, `virtio_net_handle_vlan_table` and their like).

The scatter lists of a command are the bytes they describe. A command that ends the process
is `none`, and so is one that would write behind the MAC table: the sum of the two counts of
entries is made in 32 bits, so a buffer of almost 4 GiB can pass the check.

Owns: the filter as a function of modes, tables and the addresses of a packet, and what every
sequence of commands keeps.
-/

namespace VhostUser.Qemu.Virtio

open VhostUser.Lib
open VhostUser.Lib.ByteImage (getLE putLE slice overlay)

/-! ### The device -/

/-- What the configuration of a NIC and of its peer says. -/
structure NetConfig where
  macaddr : ByteImage
  maxQueues : UInt16
  positive : 1 ≤ maxQueues.toNat
  /-- `tap_has_vnet_hdr`. -/
  hasVnetHdr : UInt32
  tapHasVnetHdrLen : Nat → Bool
  tapHasUfo : UInt8

structure MacTable where
  inUse : Nat
  firstMulti : Nat
  multiOverflow : UInt8
  uniOverflow : UInt8
  macs : ByteImage

structure VirtIONet where
  guestFeatures : UInt32
  mac : ByteImage
  status : UInt16
  hasUfo : UInt8
  hostHdrLen : Nat
  guestHdrLen : Nat
  mergeableRxBufs : UInt32
  promisc : UInt8
  allmulti : UInt8
  alluni : UInt8
  nomulti : UInt8
  nouni : UInt8
  nobcast : UInt8
  macTable : MacTable
  vlans : ByteImage
  multiqueue : Bool
  currQueues : UInt16
  txWaiting : Nat → UInt32
  currGuestOffloads : UInt64

def ethAlen : Nat := 6

def macTableEntries : Nat := 64

def maxVlan : Nat := 4096

def hasFeature (features : UInt32) (bit : UInt32) : Bool := features >>> bit &&& 1 ≠ 0

def NetConfig.peerHasUfo (config : NetConfig) : UInt8 :=
  if config.hasVnetHdr = 0 then 0 else config.tapHasUfo

/-- `virtio_net_set_mrg_rx_bufs`. The headers are `struct virtio_net_hdr_mrg_rxbuf` and
`struct virtio_net_hdr`. -/
def virtioNetSetMrgRxBufs (config : NetConfig) (mergeableRxBufs : UInt32) (n : VirtIONet) :
    VirtIONet :=
  let guestHdrLen := if mergeableRxBufs ≠ 0 then 12 else 10
  { n with
    mergeableRxBufs, guestHdrLen
    hostHdrLen :=
      if config.hasVnetHdr ≠ 0 && config.tapHasVnetHdrLen guestHdrLen then guestHdrLen
      else n.hostHdrLen }

def virtioNetGuestOffloadsByFeatures (features : UInt32) : UInt64 := 0x782 &&& features.toUInt64

def virtioNetSetFeatures (config : NetConfig) (features : UInt32) (n : VirtIONet) : VirtIONet :=
  let multiqueue := hasFeature features 22
  let max := if multiqueue then config.maxQueues.toNat else 1
  virtioNetSetMrgRxBufs config (if hasFeature features 15 then 1 else 0)
    { n with
      guestFeatures := features
      multiqueue
      txWaiting := fun i => if 1 ≤ i ∧ i < max then 0 else n.txWaiting i
      currGuestOffloads :=
        if config.hasVnetHdr ≠ 0 then virtioNetGuestOffloadsByFeatures features
        else n.currGuestOffloads }

def virtioNetDeviceRealize (config : NetConfig) : VirtIONet :=
  virtioNetSetMrgRxBufs config 0
    { guestFeatures := 0
      mac := config.macaddr
      -- `VIRTIO_NET_S_LINK_UP`
      status := 1
      hasUfo := config.peerHasUfo
      hostHdrLen := if config.hasVnetHdr ≠ 0 then 10 else 0
      guestHdrLen := 0
      mergeableRxBufs := 0
      promisc := 1
      allmulti := 0
      alluni := 0
      nomulti := 0
      nouni := 0
      nobcast := 0
      macTable := ⟨0, 0, 0, 0, fun _ => 0⟩
      vlans := fun _ => 0
      multiqueue := false
      currQueues := 1
      txWaiting := fun _ => 0
      currGuestOffloads := 0 }

/-! ### The filter -/

def MacTable.entry (table : MacTable) (i : Nat) : List UInt8 :=
  slice table.macs (i * ethAlen) ethAlen

def vlanWord (vlans : ByteImage) (vid : Nat) : UInt32 := .ofNat (getLE vlans (4 * (vid / 32)) 4)

def vlanBit (vid : Nat) : UInt32 := 1 <<< UInt32.ofNat (vid % 32)

def broadcast : List UInt8 := [0xff, 0xff, 0xff, 0xff, 0xff, 0xff]

/-- `receive_filter`. The packet is what stands in memory from `buf` on. -/
def receiveFilter (n : VirtIONet) (buf : ByteImage) : Bool :=
  if n.promisc ≠ 0 then true
  else
    let ptr : ByteImage := fun k => buf (n.hostHdrLen + k)
    let vid := (256 * (ptr 14).toNat + (ptr 15).toNat) % maxVlan
    if slice ptr 12 2 = [0x81, 0x00] ∧ vlanWord n.vlans vid &&& vlanBit vid = 0 then false
    else if ptr 0 &&& 1 ≠ 0 then
      if slice ptr 0 ethAlen = broadcast then n.nobcast = 0
      else if n.nomulti ≠ 0 then false
      else if n.allmulti ≠ 0 ∨ n.macTable.multiOverflow ≠ 0 then true
      else (List.range' n.macTable.firstMulti (n.macTable.inUse - n.macTable.firstMulti)).any
        fun i => slice ptr 0 ethAlen = n.macTable.entry i
    else
      if n.nouni ≠ 0 then false
      else if n.alluni ≠ 0 ∨ n.macTable.uniOverflow ≠ 0 then true
      else if slice ptr 0 ethAlen = slice n.mac 0 ethAlen then true
      else (List.range n.macTable.firstMulti).any fun i => slice ptr 0 ethAlen = n.macTable.entry i

/-! ### Control commands -/

inductive CtrlAck where
  | ok
  | err
deriving DecidableEq, Repr

def leWord (data : List UInt8) (width : Nat) : Nat := getLE (overlay data fun _ => 0) 0 width

def virtioNetHandleRxMode (n : VirtIONet) (cmd : UInt8) : List UInt8 → CtrlAck × VirtIONet
  | [] => (.err, n)
  | on :: _ =>
    match cmd.toNat with
    | 0 => (.ok, { n with promisc := on })
    | 1 => (.ok, { n with allmulti := on })
    | 2 => (.ok, { n with alluni := on })
    | 3 => (.ok, { n with nomulti := on })
    | 4 => (.ok, { n with nouni := on })
    | 5 => (.ok, { n with nobcast := on })
    | _ => (.err, n)

def virtioNetHandleOffloads (config : NetConfig) (n : VirtIONet) (cmd : UInt8)
    (data : List UInt8) : CtrlAck × VirtIONet :=
  if !hasFeature n.guestFeatures 2 then (.err, n)
  else if data.length < 8 then (.err, n)
  else if cmd ≠ 0 then (.err, n)
  else if config.hasVnetHdr = 0 then (.err, n)
  else
    let offloads := UInt64.ofNat (leWord data 8)
    if offloads &&& ~~~virtioNetGuestOffloadsByFeatures n.guestFeatures ≠ 0 then (.err, n)
    else (.ok, { n with currGuestOffloads := offloads })

inductive TableError where
  | refused
  /-- The source would write behind its array. -/
  | outOfBounds
deriving DecidableEq, Repr

/-- The second half of `VIRTIO_NET_CTRL_MAC_TABLE_SET`: the multicast addresses, behind the
`inUse` addresses in `macs`. -/
def setMulticast (inUse : Nat) (uniOverflow : UInt8) (macs : ByteImage) (data : List UInt8) :
    Except TableError MacTable :=
  if data.length < 4 then .error .refused
  else
    let entries := UInt32.ofNat (leWord data 4)
    let data := data.drop 4
    if (entries * 6).toNat ≠ data.length then .error .refused
    else if UInt32.ofNat inUse + entries ≤ 64 then
      if macTableEntries * ethAlen < inUse * ethAlen + data.length then .error .outOfBounds
      else .ok ⟨inUse + entries.toNat, inUse, 0, uniOverflow, fun k =>
        if inUse * ethAlen ≤ k then overlay data (fun _ => 0) (k - inUse * ethAlen) else macs k⟩
    else .ok ⟨inUse, inUse, 1, uniOverflow, macs⟩

def setMacTable (data : List UInt8) : Except TableError MacTable :=
  if data.length < 4 then .error .refused
  else
    let entries := UInt32.ofNat (leWord data 4)
    let data := data.drop 4
    if data.length < (entries * 6).toNat then .error .refused
    else
      let rest := data.drop (entries * 6).toNat
      if entries ≤ 64 then
        setMulticast entries.toNat 0 (overlay (data.take (entries * 6).toNat) fun _ => 0) rest
      else setMulticast 0 1 (fun _ => 0) rest

def virtioNetHandleMac (n : VirtIONet) (cmd : UInt8) (data : List UInt8) :
    Option (CtrlAck × VirtIONet) :=
  match cmd.toNat with
  | 1 =>
    if data.length ≠ ethAlen then some (.err, n)
    else some (.ok, { n with mac := overlay data n.mac })
  | 0 =>
    match setMacTable data with
    | .error .refused => some (.err, n)
    | .error .outOfBounds => none
    | .ok macTable => some (.ok, { n with macTable })
  | _ => some (.err, n)

def virtioNetHandleVlanTable (n : VirtIONet) (cmd : UInt8) (data : List UInt8) :
    CtrlAck × VirtIONet :=
  let vid := leWord data 2
  let setWord (word : UInt32) : VirtIONet :=
    { n with vlans := putLE n.vlans (4 * (vid / 32)) 4 word.toNat }
  if data.length < 2 then (.err, n)
  else if maxVlan ≤ vid then (.err, n)
  else
    match cmd.toNat with
    | 0 => (.ok, setWord (vlanWord n.vlans vid ||| vlanBit vid))
    | 1 => (.ok, setWord (vlanWord n.vlans vid &&& ~~~vlanBit vid))
    | _ => (.err, n)

def virtioNetHandleMq (config : NetConfig) (n : VirtIONet) (cmd : UInt8) (data : List UInt8) :
    CtrlAck × VirtIONet :=
  let queues := UInt16.ofNat (leWord data 2)
  if data.length < 2 then (.err, n)
  else if cmd ≠ 0 then (.err, n)
  else if queues < 1 || 0x8000 < queues || config.maxQueues < queues || !n.multiqueue then (.err, n)
  else (.ok, { n with currQueues := queues })

/-- `virtio_net_handle_ctrl` on an element: the bytes to read, the size of its buffers to write,
and the answer to the element before it. -/
def virtioNetHandleCtrl (config : NetConfig) (status : CtrlAck) (out : List UInt8) (inSize : Nat)
    (n : VirtIONet) : Option (CtrlAck × VirtIONet) :=
  if inSize < 1 then none
  else
    match out with
    | cls :: cmd :: data =>
      match cls.toNat with
      | 0 => some (virtioNetHandleRxMode n cmd data)
      | 1 => virtioNetHandleMac n cmd data
      | 2 => some (virtioNetHandleVlanTable n cmd data)
      | 4 => some (virtioNetHandleMq config n cmd data)
      | 5 => some (virtioNetHandleOffloads config n cmd data)
      | _ => some (status, n)
    | _ => none

structure CtrlCommand where
  status : CtrlAck
  out : List UInt8
  inSize : Nat
deriving DecidableEq, Repr

/-- Control commands on a device whose features were negotiated. -/
def filterMachine (config : NetConfig) : Machine VirtIONet CtrlCommand where
  start n := ∃ features, n = virtioNetSetFeatures config features (virtioNetDeviceRealize config)
  step n command :=
    (virtioNetHandleCtrl config command.status command.out command.inSize n).map (·.2)

/-! ### What the commands keep -/

/-- What the features and the configuration fix, and the bounds of the counters. -/
structure Consistent (config : NetConfig) (n : VirtIONet) : Prop where
  header : n.hostHdrLen =
    (virtioNetSetFeatures config n.guestFeatures (virtioNetDeviceRealize config)).hostHdrLen
  mergeable : n.mergeableRxBufs = if hasFeature n.guestFeatures 15 then 1 else 0
  ufo : n.hasUfo = config.peerHasUfo
  queues : n.currQueues.toNat ≤ config.maxQueues.toNat
  split : n.macTable.firstMulti ≤ n.macTable.inUse
  few : n.macTable.inUse ≤ macTableEntries

variable {config : NetConfig} {n : VirtIONet} {data address : List UInt8} {table : MacTable}
  {inUse : Nat}

theorem Consistent.start (features : UInt32) :
    Consistent config (virtioNetSetFeatures config features (virtioNetDeviceRealize config)) :=
  ⟨rfl, rfl, rfl, config.positive, Nat.le_refl _, Nat.zero_le _⟩

section

variable (consistent : Consistent config n)
include consistent

theorem Consistent.rxMode (cmd : UInt8) (data : List UInt8) :
    Consistent config (virtioNetHandleRxMode n cmd data).2 := by
  cases data with
  | nil => exact consistent
  | cons on rest =>
    unfold virtioNetHandleRxMode
    dsimp only
    split <;> exact { consistent with }

theorem Consistent.offloads (cmd : UInt8)
    (data : List UInt8) : Consistent config (virtioNetHandleOffloads config n cmd data).2 := by
  unfold virtioNetHandleOffloads
  dsimp only
  split_ifs <;> exact { consistent with }

theorem Consistent.vlanTable (cmd : UInt8)
    (data : List UInt8) : Consistent config (virtioNetHandleVlanTable n cmd data).2 := by
  unfold virtioNetHandleVlanTable
  dsimp only
  split_ifs
  · exact { consistent with }
  · exact { consistent with }
  · split <;> exact { consistent with }

theorem Consistent.mq (cmd : UInt8) (data : List UInt8) :
    Consistent config (virtioNetHandleMq config n cmd data).2 := by
  unfold virtioNetHandleMq
  dsimp only
  split_ifs with short wrong range
  · exact { consistent with }
  · exact { consistent with }
  · exact { consistent with }
  · refine { consistent with queues := ?_ }
    simp only [Bool.or_eq_true, decide_eq_true_eq, not_or] at range
    exact Nat.le_of_not_lt fun more => range.1.2 (UInt16.lt_iff_toNat_lt.mpr more)

end

theorem counts_wrap {bytes : Nat} {entries : UInt32} (whole : (entries * 6).toNat = bytes)
    (fits : UInt32.ofNat inUse + entries ≤ 64) :
    entries.toNat * 6 % 2 ^ 32 = bytes ∧ (inUse % 2 ^ 32 + entries.toNat) % 2 ^ 32 ≤ 64 := by
  have small := UInt32.le_iff_toNat_le.mp fits
  rw [UInt32.toNat_add, UInt32.toNat_ofNat'] at small
  rw [UInt32.toNat_mul] at whole
  exact ⟨whole, small⟩

/-- A sum of counts that wraps comes with more data than the table has room for. -/
theorem setMulticast_bounds {uniOverflow : UInt8} {macs : ByteImage}
    (room : inUse ≤ macTableEntries) (set : setMulticast inUse uniOverflow macs data = .ok table) :
    table.firstMulti ≤ table.inUse ∧ table.inUse ≤ macTableEntries := by
  unfold setMulticast at set
  dsimp only at set
  split_ifs at set with short wrong fits out
  · cases set
    obtain ⟨product, sum⟩ := counts_wrap (not_not.mp wrong) fits
    have small := (UInt32.ofNat (leWord data 4)).toNat_lt
    simp only [macTableEntries, ethAlen] at room out ⊢
    omega
  · cases set
    exact ⟨Nat.le_refl _, room⟩

theorem setMacTable_bounds (set : setMacTable data = .ok table) :
    table.firstMulti ≤ table.inUse ∧ table.inUse ≤ macTableEntries := by
  unfold setMacTable at set
  dsimp only at set
  split_ifs at set with short wrong fits
  · exact setMulticast_bounds (UInt32.le_iff_toNat_le.mp fits) set
  · exact setMulticast_bounds (Nat.zero_le _) set

/-- A sum of counts wraps with almost 4 GiB of data only. -/
theorem setMulticast_inside {uniOverflow : UInt8} {macs : ByteImage}
    (room : inUse ≤ macTableEntries) (short : data.length < 2 ^ 32 - macTableEntries * ethAlen) :
    setMulticast inUse uniOverflow macs data ≠ .error .outOfBounds := by
  unfold setMulticast
  dsimp only
  split_ifs with missing wrong fits out
  · nofun
  · nofun
  · exfalso
    obtain ⟨product, sum⟩ := counts_wrap (not_not.mp wrong) fits
    simp only [macTableEntries, ethAlen, List.length_drop] at room out short product
    omega
  · nofun
  · nofun

theorem setMacTable_inside (short : data.length < 2 ^ 32 - macTableEntries * ethAlen) :
    setMacTable data ≠ .error .outOfBounds := by
  unfold setMacTable
  dsimp only
  have fewer (count : Nat) :
      ((data.drop 4).drop count).length < 2 ^ 32 - macTableEntries * ethAlen := by
    rw [List.length_drop, List.length_drop]
    omega
  split_ifs with missing wrong fits
  · nofun
  · nofun
  · exact setMulticast_inside (UInt32.le_iff_toNat_le.mp fits) (fewer _)
  · exact setMulticast_inside (Nat.zero_le _) (fewer _)

/-- A command with its headers and less than that much data is answered. -/
theorem handleCtrl_answers {status : CtrlAck} {out : List UInt8} {inSize : Nat} (ack : 0 < inSize)
    (header : 2 ≤ out.length) (short : out.length < 2 ^ 32 - macTableEntries * ethAlen) :
    ∃ after, virtioNetHandleCtrl config status out inSize n = some after := by
  unfold virtioNetHandleCtrl
  rw [if_neg (Nat.not_lt.mpr ack)]
  split
  next cls cmd data =>
    split
    case h_2 =>
      have inside : setMacTable data ≠ .error .outOfBounds :=
        setMacTable_inside (Nat.lt_of_succ_lt (Nat.lt_of_succ_lt short))
      unfold virtioNetHandleMac
      split
      · split <;> exact ⟨_, rfl⟩
      · split
        · exact ⟨_, rfl⟩
        · contradiction
        · exact ⟨_, rfl⟩
      · exact ⟨_, rfl⟩
    all_goals exact ⟨_, rfl⟩
  next missing =>
    match out, header with
    | cls :: cmd :: data, _ => exact absurd rfl (missing cls cmd data)

theorem Consistent.handleMac (consistent : Consistent config n) {cmd : UInt8}
    {after : CtrlAck × VirtIONet} (handled : virtioNetHandleMac n cmd data = some after) :
    Consistent config after.2 := by
  unfold virtioNetHandleMac at handled
  split at handled
  · split_ifs at handled <;> cases handled <;> exact { consistent with }
  · split at handled
    · cases handled
      exact { consistent with }
    · cases handled
    next table set =>
      cases handled
      obtain ⟨splitAfter, fewAfter⟩ := setMacTable_bounds set
      exact { consistent with split := splitAfter, few := fewAfter }
  · cases handled
    exact { consistent with }

theorem Consistent.handleCtrl (consistent : Consistent config n) {status : CtrlAck}
    {out : List UInt8} {inSize : Nat} {after : CtrlAck × VirtIONet}
    (handled : virtioNetHandleCtrl config status out inSize n = some after) :
    Consistent config after.2 := by
  unfold virtioNetHandleCtrl at handled
  split_ifs at handled
  split at handled
  · split at handled
    · cases handled
      exact consistent.rxMode _ _
    · exact consistent.handleMac handled
    · cases handled
      exact consistent.vlanTable _ _
    · cases handled
      exact consistent.mq _ _
    · cases handled
      exact consistent.offloads _ _
    · cases handled
      exact consistent
  · cases handled

theorem consistent_of_reached
    (reached : (filterMachine config).Reached Machine.anyAction n) : Consistent config n := by
  refine reached.invariant ?_ ?_
  · rintro _ ⟨features, rfl⟩
    exact Consistent.start features
  · intro before command after consistent _ stepped
    obtain ⟨answered, handled, rfl⟩ := Option.map_eq_some_iff.mp stepped
    exact consistent.handleCtrl handled

/-! ### The filter by its addresses -/

def isMulticast (address : List UInt8) : Bool := address.headD 0 &&& 1 ≠ 0

def MacTable.unicastPart (table : MacTable) : List (List UInt8) :=
  (List.range table.firstMulti).map table.entry

def MacTable.multicastPart (table : MacTable) : List (List UInt8) :=
  (List.range' table.firstMulti (table.inUse - table.firstMulti)).map table.entry

/-- The verdict on the address of a packet. -/
def VirtIONet.Accepts (n : VirtIONet) (address : List UInt8) : Prop :=
  if isMulticast address then
    if address = broadcast then n.nobcast = 0
    else n.nomulti = 0 ∧ (n.allmulti ≠ 0 ∨ n.macTable.multiOverflow ≠ 0 ∨
      address ∈ n.macTable.multicastPart)
  else n.nouni = 0 ∧ (n.alluni ≠ 0 ∨ n.macTable.uniOverflow ≠ 0 ∨
    address = slice n.mac 0 ethAlen ∨ address ∈ n.macTable.unicastPart)

/-- A packet that is tagged carries a VLAN of the table. -/
def VlanPasses (vlans ptr : ByteImage) : Prop :=
  let vid := (256 * (ptr 14).toNat + (ptr 15).toNat) % maxVlan
  slice ptr 12 2 = [0x81, 0x00] → vlanWord vlans vid &&& vlanBit vid ≠ 0

theorem MacTable.any_entry (table : MacTable) (indices : List Nat) (address : List UInt8) :
    (indices.any fun i => address = table.entry i) = true ↔ address ∈ indices.map table.entry := by
  rw [List.any_eq_true, List.mem_map]
  simp only [decide_eq_true_eq, @eq_comm _ address]

theorem receiveFilter_iff (n : VirtIONet) (buf : ByteImage) :
    receiveFilter n buf = true ↔ n.promisc ≠ 0 ∨
      VlanPasses n.vlans (fun k => buf (n.hostHdrLen + k)) ∧
        n.Accepts (slice (fun k => buf (n.hostHdrLen + k)) 0 ethAlen) := by
  have first : isMulticast (slice (fun k => buf (n.hostHdrLen + k)) 0 ethAlen) = true ↔
      buf (n.hostHdrLen + 0) &&& 1 ≠ 0 := by
    simp [isMulticast, slice, ethAlen, List.range_succ_eq_map]
  unfold receiveFilter
  by_cases promisc : n.promisc = 0
  · rw [if_neg (not_not.mpr promisc)]
    dsimp only
    split_ifs with blocked group broadcast none all none all own
    · simp only [promisc, ne_eq, not_true_eq_false, false_or, false_iff]
      exact fun passes => passes.1 blocked.1 blocked.2
    all_goals
      have passes : VlanPasses n.vlans fun k => buf (n.hostHdrLen + k) :=
        fun tagged clear => blocked ⟨tagged, clear⟩
      simp only [promisc, ne_eq, not_true_eq_false, false_or, passes, true_and]
      rw [VirtIONet.Accepts]
    · rw [if_pos (first.mpr group), if_pos broadcast, decide_eq_true_eq]
    · rw [if_pos (first.mpr group), if_neg broadcast]
      simp only [none, false_and]
    · rw [if_pos (first.mpr group), if_neg broadcast]
      tauto
    · rw [if_pos (first.mpr group), if_neg broadcast]
      obtain ⟨noAll, noOverflow⟩ := not_or.mp all
      rw [MacTable.any_entry]
      simp only [not_not.mp none, noAll, noOverflow, true_and, false_or, MacTable.multicastPart]
    · rw [if_neg (mt first.mp group)]
      simp only [none, false_and]
    · rw [if_neg (mt first.mp group)]
      tauto
    · rw [if_neg (mt first.mp group)]
      simp only [not_not.mp none, own, true_and, true_or, or_true]
    · rw [if_neg (mt first.mp group)]
      obtain ⟨noAll, noOverflow⟩ := not_or.mp all
      rw [MacTable.any_entry]
      simp only [not_not.mp none, noAll, noOverflow, own, true_and, false_or, MacTable.unicastPart]
  · simp [promisc]

/-! ### Another split of the table -/

/-- As far as the filter goes, the devices differ in where the table is split at most. -/
structure SplitApart (n m : VirtIONet) : Prop where
  hostHdrLen : m.hostHdrLen = n.hostHdrLen
  promisc : m.promisc = n.promisc
  allmulti : m.allmulti = n.allmulti
  alluni : m.alluni = n.alluni
  nomulti : m.nomulti = n.nomulti
  nouni : m.nouni = n.nouni
  nobcast : m.nobcast = n.nobcast
  multiOverflow : m.macTable.multiOverflow = n.macTable.multiOverflow
  uniOverflow : m.macTable.uniOverflow = n.macTable.uniOverflow
  inUse : m.macTable.inUse = n.macTable.inUse
  entry : ∀ i < n.macTable.inUse, m.macTable.entry i = n.macTable.entry i
  mac : slice m.mac 0 ethAlen = slice n.mac 0 ethAlen
  vlans : ∀ k < maxVlan / 8, m.vlans k = n.vlans k

def packetTo (hostHdrLen : Nat) (address : List UInt8) : ByteImage := fun k =>
  overlay address (fun _ => 0) (k - hostHdrLen)

theorem packetTo_address (hostHdrLen : Nat) (sized : address.length = ethAlen) :
    slice (fun k => packetTo hostHdrLen address (hostHdrLen + k)) 0 ethAlen = address := by
  have same : (fun k => packetTo hostHdrLen address (hostHdrLen + k)) =
      overlay address fun _ => 0 := by
    funext k
    rw [packetTo, Nat.add_sub_cancel_left]
  rw [same, ← sized]
  exact ByteImage.slice_overlay address _

theorem packetTo_passes (vlans : ByteImage) (hostHdrLen : Nat) (sized : address.length = ethAlen) :
    VlanPasses vlans fun k => packetTo hostHdrLen address (hostHdrLen + k) := by
  intro tagged
  have clear : packetTo hostHdrLen address (hostHdrLen + 12) = 0 := by
    rw [packetTo, Nat.add_sub_cancel_left]
    refine ByteImage.overlay_above _ ?_
    rw [sized]
    decide
  have set : packetTo hostHdrLen address (hostHdrLen + 12) = 0x81 := by
    have head := congrArg List.head? tagged
    simpa [slice, List.range_succ_eq_map] using head
  rw [clear] at set
  exact absurd set (by decide)

theorem vlanPasses_congr {left right : ByteImage} (ptr : ByteImage)
    (same : ∀ k < maxVlan / 8, left k = right k) : VlanPasses left ptr ↔ VlanPasses right ptr := by
  unfold VlanPasses
  have word (vid : Nat) : vlanWord left (vid % maxVlan) = vlanWord right (vid % maxVlan) := by
    unfold vlanWord
    congr 1
    refine ByteImage.getLE_congr fun index lower upper => same index ?_
    simp only [maxVlan] at upper ⊢
    omega
  simp only [word]

theorem MacTable.entry_sized (i : Nat) : (table.entry i).length = ethAlen :=
  ByteImage.slice_length _ _ _

/-- Two filters agree if they agree on addresses: every address has a packet without a tag. -/
theorem SplitApart.agree_iff {m : VirtIONet} (apart : SplitApart n m) :
    (∀ buf, receiveFilter m buf = receiveFilter n buf) ↔ n.promisc ≠ 0 ∨
      ∀ address, address.length = ethAlen → (m.Accepts address ↔ n.Accepts address) := by
  have verdicts (buf : ByteImage) : receiveFilter m buf = receiveFilter n buf ↔
      (n.promisc ≠ 0 ∨ VlanPasses n.vlans (fun k => buf (n.hostHdrLen + k)) ∧
        m.Accepts (slice (fun k => buf (n.hostHdrLen + k)) 0 ethAlen) ↔
      n.promisc ≠ 0 ∨ VlanPasses n.vlans (fun k => buf (n.hostHdrLen + k)) ∧
        n.Accepts (slice (fun k => buf (n.hostHdrLen + k)) 0 ethAlen)) := by
    rw [Bool.eq_iff_iff, receiveFilter_iff, receiveFilter_iff, apart.promisc, apart.hostHdrLen,
      vlanPasses_congr _ apart.vlans]
  simp only [verdicts]
  constructor
  · intro agree
    by_cases promisc : n.promisc = 0
    · refine Or.inr fun address sized => ?_
      have same := agree (packetTo n.hostHdrLen address)
      rw [packetTo_address _ sized] at same
      simpa [promisc, packetTo_passes n.vlans n.hostHdrLen sized] using same
    · exact Or.inl promisc
  · rintro (promisc | agree) buf
    · simp [promisc]
    · rw [agree _ (ByteImage.slice_length _ _ _)]

/-- The table has the address before any multicast address. -/
def MacTable.Leads (table : MacTable) (address : List UInt8) : Prop :=
  ∃ i < table.inUse, table.entry i = address ∧ ∀ j < i, isMulticast (table.entry j) = false

instance (table : MacTable) (address : List UInt8) : Decidable (table.Leads address) :=
  inferInstanceAs (Decidable (∃ i < table.inUse, _ ∧ ∀ j < i, _))

/-- The first multicast address of the table, or its end. -/
def MacTable.SplitAtGroup (table : MacTable) : Prop :=
  table.firstMulti ≤ table.inUse ∧
    (∀ i < table.firstMulti, isMulticast (table.entry i) = false) ∧
    (table.firstMulti < table.inUse → isMulticast (table.entry table.firstMulti) = true)

theorem MacTable.mem_unicastPart :
    address ∈ table.unicastPart ↔ ∃ i < table.firstMulti, table.entry i = address := by
  simp [unicastPart]

theorem MacTable.mem_multicastPart :
    address ∈ table.multicastPart ↔
      ∃ i, table.firstMulti ≤ i ∧ i < table.inUse ∧ table.entry i = address := by
  simp only [multicastPart, List.mem_map, List.mem_range'_1]
  refine exists_congr fun i => ?_
  constructor
  · rintro ⟨⟨lower, upper⟩, same⟩
    exact ⟨lower, by omega, same⟩
  · rintro ⟨lower, upper, same⟩
    exact ⟨⟨lower, by omega⟩, same⟩

/-- The multicast addresses are the same for a split at the first of them. -/
def MacTable.MulticastKept (table : MacTable) : Prop :=
  ∀ address ∈ table.unicastPart, isMulticast address = true → address ≠ broadcast →
    address ∈ table.multicastPart

/-- The unicast addresses but the device's own are the same for a split at the first multicast
address. -/
def MacTable.UnicastKept (table : MacTable) (mac : List UInt8) : Prop :=
  (∀ address ∈ table.unicastPart, isMulticast address = false → address ≠ mac →
    table.Leads address) ∧
  ∀ address ∈ table.multicastPart, isMulticast address = false → address ≠ mac →
    table.Leads address → address ∈ table.unicastPart

instance (table : MacTable) : Decidable table.MulticastKept :=
  inferInstanceAs (Decidable (∀ address ∈ _, _))

instance (table : MacTable) (mac : List UInt8) : Decidable (table.UnicastKept mac) :=
  inferInstanceAs (Decidable ((∀ address ∈ _, _) ∧ ∀ address ∈ _, _))

/-- The filter does not look at the table, or the split at the first multicast address has the
same addresses on either side. -/
def VirtIONet.SplitKept (n : VirtIONet) : Prop :=
  n.promisc ≠ 0 ∨
    (n.nomulti ≠ 0 ∨ n.allmulti ≠ 0 ∨ n.macTable.multiOverflow ≠ 0 ∨ n.macTable.MulticastKept) ∧
    (n.nouni ≠ 0 ∨ n.alluni ≠ 0 ∨ n.macTable.uniOverflow ≠ 0 ∨
      n.macTable.UnicastKept (slice n.mac 0 ethAlen))

instance (n : VirtIONet) : Decidable n.SplitKept :=
  inferInstanceAs (Decidable (_ ∨ _))

section Split

variable {m : VirtIONet} (apart : SplitApart n m) (grouped : m.macTable.SplitAtGroup)
  {address : List UInt8}

include apart grouped

theorem SplitApart.mem_multicastPart (group : isMulticast address = true) :
    address ∈ m.macTable.multicastPart ↔ ∃ i < n.macTable.inUse, n.macTable.entry i = address := by
  obtain ⟨-, unicast, -⟩ := grouped
  rw [MacTable.mem_multicastPart, apart.inUse]
  constructor
  · rintro ⟨i, -, inside, same⟩
    exact ⟨i, inside, (apart.entry i inside).symm.trans same⟩
  · rintro ⟨i, inside, same⟩
    have listed : m.macTable.entry i = address := (apart.entry i inside).trans same
    refine ⟨i, Nat.le_of_not_lt fun before => ?_, inside, listed⟩
    have single := unicast i before
    rw [listed, group] at single
    cases single

theorem SplitApart.mem_unicastPart (single : isMulticast address = false) :
    address ∈ m.macTable.unicastPart ↔ n.macTable.Leads address := by
  obtain ⟨bounded, unicast, stops⟩ := grouped
  rw [apart.inUse] at bounded stops
  rw [MacTable.mem_unicastPart]
  constructor
  · rintro ⟨i, before, same⟩
    have inside := Nat.lt_of_lt_of_le before bounded
    refine ⟨i, inside, (apart.entry i inside).symm.trans same, fun j earlier => ?_⟩
    rw [← apart.entry j (earlier.trans inside)]
    exact unicast j (earlier.trans before)
  · rintro ⟨i, inside, same, leads⟩
    have listed : m.macTable.entry i = address := (apart.entry i inside).trans same
    refine ⟨i, Nat.lt_of_not_le fun behind => ?_, listed⟩
    have group := stops (Nat.lt_of_le_of_lt behind inside)
    rcases Nat.lt_or_eq_of_le behind with earlier | rfl
    · rw [apart.entry _ (earlier.trans inside), leads _ earlier] at group
      cases group
    · rw [listed, single] at group
      cases group

theorem SplitApart.multicast_iff (split : n.macTable.firstMulti ≤ n.macTable.inUse) :
    (∀ address, address.length = ethAlen → isMulticast address = true → address ≠ broadcast →
      (address ∈ m.macTable.multicastPart ↔ address ∈ n.macTable.multicastPart)) ↔
      n.macTable.MulticastKept := by
  constructor
  · intro same address listed group other
    obtain ⟨i, before, rfl⟩ := MacTable.mem_unicastPart.mp listed
    refine (same _ (MacTable.entry_sized i) group other).mp ?_
    rw [apart.mem_multicastPart grouped group]
    exact ⟨i, Nat.lt_of_lt_of_le before split, rfl⟩
  · intro kept address _ group other
    rw [apart.mem_multicastPart grouped group]
    constructor
    · rintro ⟨i, inside, entry⟩
      rcases Nat.lt_or_ge i n.macTable.firstMulti with before | behind
      · exact kept address (MacTable.mem_unicastPart.mpr ⟨i, before, entry⟩) group other
      · exact MacTable.mem_multicastPart.mpr ⟨i, behind, inside, entry⟩
    · intro listed
      obtain ⟨i, -, inside, entry⟩ := MacTable.mem_multicastPart.mp listed
      exact ⟨i, inside, entry⟩

theorem SplitApart.unicast_iff (mac : List UInt8) :
    (∀ address, address.length = ethAlen → isMulticast address = false → address ≠ mac →
      (address ∈ m.macTable.unicastPart ↔ address ∈ n.macTable.unicastPart)) ↔
      n.macTable.UnicastKept mac := by
  constructor
  · intro same
    refine ⟨fun address listed single other => ?_, fun address _ single other leads => ?_⟩
    · obtain ⟨i, -, rfl⟩ := MacTable.mem_unicastPart.mp listed
      rw [← apart.mem_unicastPart grouped single]
      exact (same _ (MacTable.entry_sized i) single other).mpr listed
    · obtain ⟨i, -, rfl, -⟩ := id leads
      rw [← apart.mem_unicastPart grouped single] at leads
      exact (same _ (MacTable.entry_sized i) single other).mp leads
  · rintro ⟨leading, back⟩ address _ single other
    rw [apart.mem_unicastPart grouped single]
    refine ⟨fun leads => ?_, fun listed => leading address listed single other⟩
    obtain ⟨i, inside, entry, -⟩ := id leads
    rcases Nat.lt_or_ge i n.macTable.firstMulti with before | behind
    · exact MacTable.mem_unicastPart.mpr ⟨i, before, entry⟩
    · have listed := MacTable.mem_multicastPart.mpr ⟨i, behind, inside, entry⟩
      exact back address listed single other leads

omit grouped

theorem SplitApart.accepts_group (group : isMulticast address = true)
    (other : address ≠ broadcast) :
    (m.Accepts address ↔ n.Accepts address) ↔
      (n.nomulti ≠ 0 ∨ n.allmulti ≠ 0 ∨ n.macTable.multiOverflow ≠ 0 ∨
        (address ∈ m.macTable.multicastPart ↔ address ∈ n.macTable.multicastPart)) := by
  rw [VirtIONet.Accepts, VirtIONet.Accepts, if_pos group, if_neg other, if_pos group,
    if_neg other, apart.nomulti, apart.allmulti, apart.multiOverflow]
  tauto

theorem SplitApart.accepts_single (single : isMulticast address = false) :
    (m.Accepts address ↔ n.Accepts address) ↔
      (n.nouni ≠ 0 ∨ n.alluni ≠ 0 ∨ n.macTable.uniOverflow ≠ 0 ∨
        (address ≠ slice n.mac 0 ethAlen →
          (address ∈ m.macTable.unicastPart ↔ address ∈ n.macTable.unicastPart))) := by
  have noGroup : ¬ isMulticast address = true := by rw [single]; decide
  rw [VirtIONet.Accepts, VirtIONet.Accepts, if_neg noGroup, if_neg noGroup, apart.nouni,
    apart.alluni, apart.uniOverflow, apart.mac]
  tauto

theorem SplitApart.accepts_broadcast : m.Accepts broadcast ↔ n.Accepts broadcast := by
  have group : isMulticast broadcast = true := by decide
  rw [VirtIONet.Accepts, VirtIONet.Accepts, if_pos group, if_pos rfl, if_pos group, if_pos rfl,
    apart.nobcast]

include grouped

/-- The filters agree exactly if the first device's filter does not depend on the split. -/
theorem SplitApart.agree_iff_kept (split : n.macTable.firstMulti ≤ n.macTable.inUse) :
    (∀ buf, receiveFilter m buf = receiveFilter n buf) ↔ n.SplitKept := by
  rw [apart.agree_iff, VirtIONet.SplitKept]
  refine or_congr Iff.rfl ⟨fun same => ⟨?_, ?_⟩, fun kept address sized => ?_⟩
  · rw [← apart.multicast_iff grouped split]
    simp only [← forall_or_left]
    exact fun address sized group other =>
      (apart.accepts_group group other).mp (same address sized)
  · rw [← apart.unicast_iff grouped]
    simp only [← forall_or_left]
    intro address sized single other
    have agree := (apart.accepts_single single).mp (same address sized)
    tauto
  obtain ⟨multicast, unicast⟩ := kept
  rw [← apart.multicast_iff grouped split] at multicast
  rw [← apart.unicast_iff grouped] at unicast
  by_cases group : isMulticast address = true
  · by_cases other : address = broadcast
    · rw [other]
      exact apart.accepts_broadcast
    · rw [apart.accepts_group group other]
      simp only [← forall_or_left] at multicast
      exact multicast address sized group other
  · have single := Bool.eq_false_of_not_eq_true group
    rw [apart.accepts_single single]
    simp only [← forall_or_left] at unicast ⊢
    exact fun other => unicast address sized single other

end Split

end VhostUser.Qemu.Virtio
