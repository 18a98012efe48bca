import VhostUser.Lib.BitWord
import VhostUser.Qemu.Reconnect

/-!
Contract: the feature mask of a vhost-net device, from `vhost_net_init` to the message
of `VHOST_SET_FEATURES` (`vhost_net.c`, `vhost.c`, `virtio-net.c`, `virtio.c`).

The memory that `vhost_net_init` gets is not cleared, and neither is the local variable
that `vhost_dev_init` hands to `VHOST_GET_FEATURES`. Both are inputs. `vhost_user_call`
sends that request and does not read the reply, so the variable keeps what it had; the
kernel writes its answer to it.

`vhost_net_ack_features` is called with 0 at the end of `vhost_net_init` and with the guest's
features when the guest writes them, so a vhost-user device that was connected again goes by
0 until the guest writes once more.

Owns: on which of these words and writes the mask depends, and when it stays within what the
backend offered.

Does not own: the requests around it (`Reconnect`).
-/

namespace VhostUser.Qemu.Features

open VhostUser.Lib.BitWord
open Reconnect (Conn Site Input)

/-! ### The device -/

def virtioNetFMrgRxbuf : Nat := 15
def virtioFNotifyOnEmpty : Nat := 24
def vhostFLogAll : Nat := 26
def vhostNetFVirtioNetHdr : Nat := 27
def virtioRingFIndirectDesc : Nat := 28
def virtioRingFEventIdx : Nat := 29

/-- The features that `vhost_net.c` negotiates, in the order in which it looks at them. -/
def vhostFeatures : List Nat :=
  [virtioFNotifyOnEmpty, virtioRingFIndirectDesc, virtioRingFEventIdx, virtioNetFMrgRxbuf]

structure VhostDev where
  features : BitVec 64
  ackedFeatures : BitVec 64
  backendFeatures : BitVec 64
deriving DecidableEq, Repr

def vhostNetGetFeatures (dev : VhostDev) (features : BitVec 32) : BitVec 32 :=
  keepBits vhostFeatures dev.features features

def vhostNetAckFeatures (dev : VhostDev) (features : BitVec 32) : VhostDev :=
  { dev with ackedFeatures := copyBits vhostFeatures features dev.backendFeatures }

/-- The kernel's `vhost-net` behind a tap, or a vhost-user server. -/
inductive Backend where
  | kernel (calls hasVnetHdr hasVnetHdrLen : Bool)
  | user (input : Input)

def Backend.fails : Backend → Site → Bool
  | .kernel calls _ _ => fun _ => !calls
  | .user input => input.fails

/-- `vhost_net_init`, on memory that holds `memory`, with `stack` in the variable of
`vhost_dev_init`. -/
def vhostNetInit (backend : Backend) (answer : BitVec 64) (memory : VhostDev)
    (stack : BitVec 64) : Option (VhostDev × Conn) :=
  match backend with
  | .kernel calls hasVnetHdr hasVnetHdrLen =>
    let backendFeatures := if hasVnetHdr then 0 else BitVec.twoPow 64 vhostNetFVirtioNetHdr
    if !calls then none
    else
      let features := if hasVnetHdrLen then answer else clearBit answer virtioNetFMrgRxbuf
      if ~~~features &&& backendFeatures ≠ 0 then none
      else some (vhostNetAckFeatures { memory with features, backendFeatures } 0, ⟨true, false⟩)
  | .user input =>
    let init := Reconnect.vhostNetInit input ⟨false, false⟩
    if init.1 then some (vhostNetAckFeatures { memory with features := stack } 0, init.2)
    else none

/-- `vhost_dev_set_features`: the mask that goes out, if the send does not fail. -/
def vhostDevSetFeatures (fails : Site → Bool) (dev : VhostDev) (enableLog : Bool) (conn : Conn) :
    Option (BitVec 64) :=
  let features :=
    if enableLog then setBit dev.ackedFeatures vhostFLogAll else dev.ackedFeatures
  if conn.control && !fails .setFeatures then some features else none

/-! ### The guest -/

/-- `virtio_net_get_features`, with or without a vhost device. The offloads go with what the peer
supports. -/
def virtioNetGetFeatures (hasVnetHdr hasUfo : Bool) (dev : Option VhostDev)
    (features : BitVec 32) : BitVec 32 :=
  let features := setBit features 5
  let features :=
    if !hasVnetHdr then clearBits [0, 11, 12, 13, 1, 7, 8, 9] features else features
  let features := if !hasVnetHdr || !hasUfo then clearBits [10, 14] features else features
  match dev with
  | none => features
  | some dev => vhostNetGetFeatures dev features

/-- What `virtio_set_features` keeps of the features that the guest writes. -/
def virtioSetFeatures (supported val : BitVec 32) : BitVec 32 := val &&& supported

/-- What happens to the features and to the connection of the peer. -/
inductive Event where
  | write (val : BitVec 32)
  | reset
  | disconnect
  | connect
deriving DecidableEq, Repr

/-- What the guest wrote last, 0 after a reset; and what it wrote last since the vhost device was
connected, or 0. -/
structure Negotiation where
  connected : Bool
  written : BitVec 32
  told : BitVec 32
deriving DecidableEq, Repr

/-- `virtio_set_features` tells the vhost device, if there is one; `virtio_reset` does not;
`vhost_user_start` makes a new device unless one is running. -/
def Negotiation.step (n : Negotiation) : Event → Negotiation
  | .write val => { n with written := val, told := if n.connected then val else n.told }
  | .reset => { n with written := 0 }
  | .disconnect => { n with connected := false }
  | .connect => if n.connected then n else { n with connected := true, told := 0 }

/-- From the plugging of the NIC to a mask: the vhost device at the plugging, the configured
features, and what happened since. The memory that `vhost_net_init` got and the backend's answer
are those of the last connection. -/
structure Session where
  memory : VhostDev
  stack : BitVec 64
  answer : BitVec 64
  plugged : Option VhostDev
  configured : BitVec 32
  hasVnetHdr : Bool
  hasUfo : Bool
  history : List Event
  enableLog : Bool

namespace Session

variable (session : Session)

def negotiation : Negotiation :=
  session.history.foldl Negotiation.step ⟨session.plugged.isSome, 0, 0⟩

/-- The `host_features` of the proxy, from the plugging on. -/
def supported : BitVec 32 :=
  virtioNetGetFeatures session.hasVnetHdr session.hasUfo session.plugged session.configured

/-- The features that the guest acknowledged (`guest_features`). -/
def acknowledged : BitVec 32 :=
  virtioSetFeatures session.supported session.negotiation.written

/-- The features of the last call of `vhost_net_ack_features` for the device that is connected. -/
def handed : BitVec 32 :=
  virtioSetFeatures session.supported session.negotiation.told

end Session

def sentFeatures (backend : Backend) (session : Session) : Option (BitVec 64) :=
  if !session.negotiation.connected then none
  else do
    let (dev, conn) ← vhostNetInit backend session.answer session.memory session.stack
    vhostDevSetFeatures backend.fails (vhostNetAckFeatures dev session.handed)
      session.enableLog conn

/-! ### The bits of the mask -/

theorem vhostFeatures_small : ∀ bit ∈ vhostFeatures, bit < 32 ∧ bit < 64 := by decide

theorem getLsbD_ack (dev : VhostDev) (features : BitVec 32) (bit : Nat) :
    (vhostNetAckFeatures dev features).ackedFeatures.getLsbD bit =
      (dev.backendFeatures.getLsbD bit || (decide (bit ∈ vhostFeatures) && features.getLsbD bit)) :=
  getLsbD_copyBits vhostFeatures_small

/-- The vhost device, if there was one, did not keep the NIC from offering the feature. -/
def Session.PluggedWith (session : Session) (bit : Nat) : Prop :=
  ∀ dev ∈ session.plugged, dev.features.getLsbD bit = true

/-- A negotiated feature is kept if the NIC was configured with it and the vhost device had it
when the NIC was plugged. -/
theorem getLsbD_kept (session : Session) (val : BitVec 32) {bit : Nat}
    (member : bit ∈ vhostFeatures) :
    (virtioSetFeatures session.supported val).getLsbD bit = true ↔
      val.getLsbD bit = true ∧ session.configured.getLsbD bit = true ∧ session.PluggedWith bit := by
  have others : ∀ bit ∈ vhostFeatures,
      bit ≠ 5 ∧ bit ∉ [0, 11, 12, 13, 1, 7, 8, 9] ∧ bit ∉ [10, 14] := by decide
  obtain ⟨notMac, notOffload, notUfo⟩ := others bit member
  have small : ∀ bit ∈ vhostFeatures, bit < 64 :=
    fun bit inside => (vhostFeatures_small bit inside).2
  have configured : (setBit session.configured 5).getLsbD bit = session.configured.getLsbD bit := by
    rw [getLsbD_setBit (by decide), decide_eq_false notMac, Bool.or_false]
  rw [virtioSetFeatures, BitVec.getLsbD_and, Bool.and_eq_true, Session.supported,
    Session.PluggedWith]
  refine and_congr_right fun _ => ?_
  cases session.plugged <;> cases session.hasVnetHdr <;> cases session.hasUfo <;>
    simp [virtioNetGetFeatures, vhostNetGetFeatures, getLsbD_keepBits small,
      getLsbD_clearBits notOffload, getLsbD_clearBits notUfo, configured, member]

/-- A mask is what it was from the start, the negotiated features that the guest acknowledged, and
the bit of the log. -/
theorem getLsbD_set {fails : Site → Bool} {dev : VhostDev} {acknowledged : BitVec 32}
    {enableLog : Bool} {conn : Conn} {mask : BitVec 64} (sent : vhostDevSetFeatures fails
      (vhostNetAckFeatures dev acknowledged) enableLog conn = some mask) (bit : Nat) :
    mask.getLsbD bit = (dev.backendFeatures.getLsbD bit ||
      (decide (bit ∈ vhostFeatures) && acknowledged.getLsbD bit) ||
        (enableLog && decide (bit = vhostFLogAll))) := by
  rw [vhostDevSetFeatures, Option.ite_none_right_eq_some] at sent
  rw [← Option.some.inj sent.2, ← getLsbD_ack]
  cases enableLog with
  | false => simp
  | true => rw [if_pos rfl, getLsbD_setBit (by decide), Bool.true_and]

theorem vhostNetInit_user {input : Input} {answer stack : BitVec 64} {memory dev : VhostDev}
    {conn : Conn} (init : vhostNetInit (.user input) answer memory stack = some (dev, conn)) :
    dev.backendFeatures = memory.backendFeatures := by
  rw [vhostNetInit, Option.ite_none_right_eq_some, Option.some.injEq, Prod.mk.injEq] at init
  rw [← init.2.1]
  rfl

/-! ### The mask and the offer -/

/-- Apart from `VHOST_F_LOG_ALL` the mask has only bits that the backend offered. -/
def Offered (answer mask : BitVec 64) : Prop :=
  ∀ bit, mask.getLsbD bit = true → bit = vhostFLogAll ∨ answer.getLsbD bit = true

/-- The uninitialised word under `backend_features` has only offered bits, and the one under
`features` did not lead the guest to acknowledge others since the connection. -/
structure Session.Clean (session : Session) : Prop where
  memory : Offered session.answer session.memory.backendFeatures
  offer : ∀ bit ∈ vhostFeatures, session.negotiation.told.getLsbD bit = true →
    session.configured.getLsbD bit = true → session.PluggedWith bit →
      session.answer.getLsbD bit = true

/-- The uninitialised word has the bit, or the guest acknowledged it since the connection. -/
def Session.Has (session : Session) (bit : Nat) : Prop :=
  session.memory.backendFeatures.getLsbD bit = true ∨
    bit ∈ vhostFeatures ∧ session.handed.getLsbD bit = true

/-- Apart from the bit of the log, each bit is in both or in neither. -/
def SameBits (first second : Session) : Prop :=
  ∀ bit, (first.Has bit ↔ second.Has bit) ∨ first.enableLog = true ∧ bit = vhostFLogAll

section Masks

variable {input : Input} {session : Session} {mask : BitVec 64}

theorem getLsbD_sent (sent : sentFeatures (.user input) session = some mask) (bit : Nat) :
    mask.getLsbD bit = true ↔ session.Has bit ∨ session.enableLog = true ∧ bit = vhostFLogAll := by
  rw [sentFeatures, Option.ite_none_left_eq_some] at sent
  obtain ⟨⟨dev, conn⟩, init, set⟩ := Option.bind_eq_some_iff.mp sent.2
  rw [getLsbD_set set, vhostNetInit_user init, Session.Has]
  simp only [Bool.or_eq_true, Bool.and_eq_true, decide_eq_true_eq]

theorem offered_iff_clean (sent : sentFeatures (.user input) session = some mask) :
    Offered session.answer mask ↔ session.Clean := by
  constructor
  · intro offered
    refine ⟨fun bit set => offered bit ?_, fun bit member told configured plugged => ?_⟩
    · exact (getLsbD_sent sent bit).mpr (.inl (.inl set))
    have handed := (getLsbD_kept session _ member).mpr ⟨told, configured, plugged⟩
    have notLog : ∀ bit ∈ vhostFeatures, bit ≠ vhostFLogAll := by decide
    refine (offered bit ?_).resolve_left (notLog bit member)
    exact (getLsbD_sent sent bit).mpr (.inl (.inr ⟨member, handed⟩))
  · intro clean bit set
    obtain (inMemory | ⟨member, handed⟩) | ⟨-, isLog⟩ := (getLsbD_sent sent bit).mp set
    · exact clean.memory bit inMemory
    · obtain ⟨told, configured, plugged⟩ := (getLsbD_kept session _ member).mp handed
      exact .inr (clean.offer bit member told configured plugged)
    · exact .inl isLog

theorem sent_eq_iff {otherInput : Input} {other : Session} {otherMask : BitVec 64}
    (sameLog : session.enableLog = other.enableLog)
    (sent : sentFeatures (.user input) session = some mask)
    (otherSent : sentFeatures (.user otherInput) other = some otherMask) :
    mask = otherMask ↔ SameBits session other := by
  have bits (bit : Nat) : mask.getLsbD bit = otherMask.getLsbD bit ↔
      (session.Has bit ↔ other.Has bit) ∨ session.enableLog = true ∧ bit = vhostFLogAll := by
    rw [Bool.eq_iff_iff, getLsbD_sent sent, getLsbD_sent otherSent, ← sameLog]
    by_cases isLog : session.enableLog = true ∧ bit = vhostFLogAll
    · simp [isLog]
    · simp only [isLog, or_false]
  constructor
  · rintro rfl bit
    exact (bits bit).mp rfl
  · intro same
    exact BitVec.eq_of_getLsbD_eq fun bit _ => (bits bit).mpr (same bit)

end Masks

/-! ### Two devices -/

def server : Input :=
  { connect := true, fails := fun _ => false, ramBacked := true, mapped := fun _ => true
    logEnabled := false, hostNotifiers := true, guestNotifiers := true, vectors := [] }

/-- A server that offers indirect descriptors, and memory that holds `word`. -/
def sessionWith (word : BitVec 64) (history : List Event) : Session :=
  { memory := ⟨0, 0, word⟩, stack := .twoPow 64 28, answer := .twoPow 64 28
    plugged := some ⟨.twoPow 64 28, 0, 0⟩, configured := .twoPow 32 28, hasVnetHdr := false
    hasUfo := false, history, enableLog := true }

def acknowledges : Event := .write (.twoPow 32 28)

end VhostUser.Qemu.Features
