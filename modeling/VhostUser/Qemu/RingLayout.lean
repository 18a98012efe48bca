import VhostUser.Lib.BitWord
import VhostUser.Qemu.Dataplane
import Mathlib.Order.CompletePartialOrder
import Mathlib.Order.Interval.Set.Disjoint

/-!
Contract: where `virtqueue_init` puts the three parts of a ring, and the windows of them that vhost
and the dataplane map.

The event fields stand behind the rings, and only `VIRTIO_RING_F_EVENT_IDX` makes the device use
them. `virtqueue_init` leaves no room for `used_event` in front of the used ring, and the sizes of
the windows leave `avail_event` out.

Owns: that without event indices the parts are apart and inside their windows, and that with event
indices they never are.
-/

namespace VhostUser.Qemu.Virtio

open VhostUser.Lib

/-! ### Rounding up -/

theorem vringAlign_toNat {addr align : UInt64} {k : Nat} (power : align.toNat = 2 ^ k)
    (fits : addr.toNat + align.toNat ≤ 2 ^ 64) :
    (vringAlign addr align).toNat = (addr.toNat + align.toNat - 1) / align.toNat * align.toNat := by
  have positive : 0 < align.toNat := by
    rw [power]
    exact Nat.two_pow_pos k
  have mask : (align - 1).toNat = 2 ^ k - 1 := by
    rw [UInt64.toNat_sub, UInt64.toNat_one, ← power]
    omega
  have value : (addr + align - 1).toNat = addr.toNat + align.toNat - 1 := by
    rw [UInt64.toNat_sub, UInt64.toNat_add, UInt64.toNat_one]
    have := UInt64.toNat_lt addr
    omega
  have split := congrArg UInt64.toNat (BitWord.and_not_add_and (addr + align - 1) (align - 1))
  have low : ((addr + align - 1) &&& (align - 1)).toNat =
      (addr.toNat + align.toNat - 1) % align.toNat := by
    rw [UInt64.toNat_and, mask, Nat.and_two_pow_sub_one_eq_mod, value, power]
  have high : (vringAlign addr align).toNat ≤ addr.toNat + align.toNat - 1 := by
    rw [← value, vringAlign, UInt64.toNat_and]
    exact Nat.and_le_left
  have below := Nat.mod_lt (addr.toNat + align.toNat - 1) positive
  have parts := Nat.div_add_mod' (addr.toNat + align.toNat - 1) align.toNat
  rw [UInt64.toNat_add, low, value, ← vringAlign] at split
  have := UInt64.toNat_lt addr
  omega

/-! ### Parts and windows -/

def bytesAt (start : UInt64) (size : Nat) : Set Nat := Set.Ico start.toNat (start.toNat + size)

section Ring

variable (eventIdx : Bool) (vring : VRing)

def eventSize : Nat := if eventIdx then 2 else 0

def descBytes : Set Nat := bytesAt vring.desc (16 * vring.num.toNat)

/-- The available ring, with `used_event` behind it. -/
def availBytes : Set Nat := bytesAt vring.avail (4 + 2 * vring.num.toNat + eventSize eventIdx)

/-- The used ring, with `avail_event` behind it. -/
def usedBytes : Set Nat := bytesAt vring.used (4 + 8 * vring.num.toNat + eventSize eventIdx)

def virtioQueueGetDescSize : UInt64 := 16 * vring.num.toUInt64

/-- The entries of the ring are 16-bit words, but the source counts `sizeof(uint64_t)`. -/
def virtioQueueGetAvailSize : UInt64 := 4 + 8 * vring.num.toUInt64

def virtioQueueGetUsedSize : UInt64 := 4 + 8 * vring.num.toUInt64

def descWindow : Set Nat := bytesAt vring.desc (virtioQueueGetDescSize vring).toNat

def availWindow : Set Nat := bytesAt vring.avail (virtioQueueGetAvailSize vring).toNat

def usedWindow : Set Nat := bytesAt vring.used (virtioQueueGetUsedSize vring).toNat

/-- `virtio_queue_get_ring_addr` is the address of the descriptors. -/
def ringWindow : Set Nat := bytesAt vring.desc (ringSize vring).toNat

structure LaidOut : Prop where
  desc_avail : Disjoint (descBytes vring) (availBytes eventIdx vring)
  desc_used : Disjoint (descBytes vring) (usedBytes eventIdx vring)
  avail_used : Disjoint (availBytes eventIdx vring) (usedBytes eventIdx vring)
  desc : descBytes vring ⊆ descWindow vring
  avail : availBytes eventIdx vring ⊆ availWindow vring
  used : usedBytes eventIdx vring ⊆ usedWindow vring
  ring : descWindow vring ∪ availWindow vring ∪ usedWindow vring ⊆ ringWindow vring

end Ring

/-- The first address behind a ring at `pa`, as a number that does not wrap. -/
def ringEnd (pa num align : Nat) : Nat :=
  (pa + 18 * num + 4 + align - 1) / align * align + 8 * num + 6

section Layout

variable {vq : VirtQueue} {k : Nat}

theorem virtqueueInit_toNat (power : vq.vring.align.toNat = 2 ^ k) (four : 2 ≤ k)
    (small : vq.vring.num.toNat ≤ virtqueueMaxSize)
    (fits : ringEnd vq.pa.toNat vq.vring.num.toNat vq.vring.align.toNat ≤ 2 ^ 64) :
    (virtqueueInit vq).vring.avail.toNat = vq.pa.toNat + 16 * vq.vring.num.toNat ∧
      (virtqueueInit vq).vring.avail.toNat + 4 + 2 * vq.vring.num.toNat ≤
        (virtqueueInit vq).vring.used.toNat ∧
      (virtqueueInit vq).vring.used.toNat + 8 * vq.vring.num.toNat + 6 ≤ 2 ^ 64 := by
  unfold ringEnd at fits
  unfold virtqueueMaxSize at small
  generalize num_eq : vq.vring.num.toNat = num at *
  generalize align_eq : vq.vring.align.toNat = align at *
  have step : 2 ^ 2 ≤ align := by
    rw [power]
    exact Nat.pow_le_pow_right Nat.two_pos four
  have below := Nat.mod_lt (vq.pa.toNat + 18 * num + 4 + align - 1) (by omega : 0 < align)
  have parts := Nat.div_add_mod' (vq.pa.toNat + 18 * num + 4 + align - 1) align
  -- the used ring starts at a multiple of `align`, so there is room for one step more
  have room : (vq.pa.toNat + 18 * num + 4 + align - 1) / align * align + align ≤ 2 ^ 64 := by
    have bits : k < 32 := by
      rw [← Nat.pow_lt_pow_iff_right (by decide : 1 < 2), ← power, ← align_eq]
      exact UInt32.toNat_lt _
    have whole : 2 ^ 64 = 2 ^ (64 - k) * align := by
      rw [power, ← Nat.pow_add]
      congr 1
      omega
    rw [whole, ← Nat.succ_mul]
    refine Nat.mul_le_mul_right _ (Nat.lt_of_mul_lt_mul_right (a := align) ?_)
    omega
  have avail : (vq.pa + vq.vring.num.toUInt64 * 16).toNat = vq.pa.toNat + 16 * num := by
    simp only [UInt64.toNat_add, UInt64.toNat_mul, UInt32.toNat_toUInt64, UInt64.reduceToNat]
    omega
  have behind : (vq.pa + vq.vring.num.toUInt64 * 16 + (4 + 2 * vq.vring.num.toUInt64)).toNat =
      vq.pa.toNat + 18 * num + 4 := by
    rw [UInt64.toNat_add, avail]
    simp only [UInt64.toNat_add, UInt64.toNat_mul, UInt32.toNat_toUInt64, UInt64.reduceToNat]
    omega
  have used := @vringAlign_toNat
    (vq.pa + vq.vring.num.toUInt64 * 16 + (4 + 2 * vq.vring.num.toUInt64)) vq.vring.align.toUInt64 k
  rw [UInt32.toNat_toUInt64, align_eq, behind] at used
  refine ⟨avail, ?_, ?_⟩
  all_goals
    simp only [virtqueueInit]
    rw [used power (by omega)]
    omega

/-- A ring that does not wrap is laid out well exactly without event indices. -/
theorem virtqueueInit_laidOut_iff {eventIdx : Bool} (power : vq.vring.align.toNat = 2 ^ k)
    (four : 2 ≤ k) (small : vq.vring.num.toNat ≤ virtqueueMaxSize)
    (fits : ringEnd vq.pa.toNat vq.vring.num.toNat vq.vring.align.toNat ≤ 2 ^ 64) :
    LaidOut eventIdx (virtqueueInit vq).vring ↔ eventIdx = false := by
  obtain ⟨avail, used, last⟩ := virtqueueInit_toNat power four small fits
  unfold virtqueueMaxSize at small
  have num : (virtqueueInit vq).vring.num = vq.vring.num := rfl
  have desc : (virtqueueInit vq).vring.desc = vq.pa := rfl
  have window : (4 + 8 * vq.vring.num.toUInt64).toNat = 4 + 8 * vq.vring.num.toNat := by
    simp only [UInt64.toNat_add, UInt64.toNat_mul, UInt32.toNat_toUInt64, UInt64.reduceToNat]
    omega
  constructor
  · intro laidOut
    cases eventIdx with
    | false => rfl
    | true =>
      -- `avail_event` starts where the window of the used ring ends
      have inside := @laidOut.used
        ((virtqueueInit vq).vring.used.toNat + (4 + 8 * vq.vring.num.toNat))
      simp only [usedBytes, usedWindow, bytesAt, virtioQueueGetUsedSize, eventSize, num, window,
        Set.mem_Ico, if_true] at inside
      omega
  · rintro rfl
    have whole : (ringSize (virtqueueInit vq).vring).toNat =
        (virtqueueInit vq).vring.used.toNat - vq.pa.toNat + (4 + 8 * vq.vring.num.toNat) := by
      rw [ringSize, UInt64.toNat_add, UInt64.toNat_sub, num, desc, window]
      omega
    have table : (16 * vq.vring.num.toUInt64).toNat = 16 * vq.vring.num.toNat := by
      simp only [UInt64.toNat_mul, UInt32.toNat_toUInt64, UInt64.reduceToNat]
      omega
    constructor
    case ring =>
      intro byte
      simp only [descWindow, availWindow, usedWindow, ringWindow, bytesAt, virtioQueueGetDescSize,
        virtioQueueGetAvailSize, virtioQueueGetUsedSize, num, desc, window, whole, table,
        Set.mem_union, Set.mem_Ico]
      omega
    case desc | avail | used =>
      intro byte
      simp only [descBytes, availBytes, usedBytes, descWindow, availWindow, usedWindow, bytesAt,
        virtioQueueGetDescSize, virtioQueueGetAvailSize, virtioQueueGetUsedSize, eventSize, num,
        window, table, Set.mem_Ico]
      grind
    all_goals
      simp only [descBytes, availBytes, usedBytes, bytesAt, eventSize, num, desc,
        Set.Ico_disjoint_Ico]
      grind

end Layout

def ringAt (num align : UInt32) : VirtQueue :=
  { vring := ⟨num, align, 0, 0, 0⟩, pa := 4096, lastAvailIdx := 0, signalledUsed := 0,
    signalledUsedValid := false, notification := true, inuse := 0 }

theorem virtqueueInit_laidOut_pages : LaidOut false (virtqueueInit (ringAt 256 4096)).vring :=
  (virtqueueInit_laidOut_iff (k := 12) rfl (by decide) (by decide) (by decide)).mpr rfl

/-- `avail_event` lies behind the windows, and `used_event` may be the flags of the used ring. -/
theorem virtqueueInit_misplaces_events :
    (∃ byte ∈ usedBytes true (virtqueueInit (ringAt 256 4096)).vring,
      byte ∉ usedWindow (virtqueueInit (ringAt 256 4096)).vring ∧
        byte ∉ ringWindow (virtqueueInit (ringAt 256 4096)).vring) ∧
      ¬Disjoint (availBytes true (virtqueueInit (ringAt 4 4)).vring)
        (usedBytes true (virtqueueInit (ringAt 4 4)).vring) := by
  refine ⟨⟨14340, ⟨by decide, by decide⟩, ?_, ?_⟩, Set.not_disjoint_iff.mpr ⟨4172, ?_, ?_⟩⟩
  · exact fun inside => absurd inside.2 (by decide)
  · exact fun inside => absurd inside.2 (by decide)
  · exact ⟨by decide, by decide⟩
  · exact ⟨by decide, by decide⟩

end VhostUser.Qemu.Virtio
