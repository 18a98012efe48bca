import VhostUser.Qemu.VirtioMigrate

/-!
Contract: `virtio_load` on any stream.

The number of queues, the length of the configuration and the sizes of the queues are taken from
the stream. The check behind a queue compares its indices with its size, and says nothing about the
size.

Owns: the fields of a stream under which the load stays inside the device and leaves queues of a
permitted size.
-/

namespace VhostUser.Qemu.Virtio

open VhostUser.Lib
open VhostUser.Lib.Decoder

def QueueSized (num : UInt32) (pa : UInt64) : Prop :=
  num.toNat ≤ virtqueueMaxSize ∧ (pa ≠ 0 → num ≠ 0)

/-- The queues that the loop of `virtio_load` stores to, up to the first that is not there. -/
def queueStores (bus : MigrationBus) (lduw : UInt64 → UInt16) :
    Nat → Nat → VirtIODevice → List UInt8 → List Nat
  | 0, _, _, _ => []
  | count + 1, i, vdev, stream =>
    i :: match (loadRing bus lduw i vdev).run stream with
      | .error _ => []
      | .ok (vdev, rest) => queueStores bus lduw count (i + 1) vdev rest

/-- The stores are inside the configuration and the queues, and after a success the configuration
has its length and the queues a permitted size. -/
def SafeLoad (bus : MigrationBus) (lduw : UInt64 → UInt16) (vdev : VirtIODevice)
    (stream : List UInt8) : Prop :=
  ∀ device configLen num rest,
    (loadDevice bus vdev).run stream = .ok ((device, configLen, num), rest) →
    device.config.length ≤ vdev.config.length ∧
      (∀ i ∈ queueStores bus lduw (intCount num) 0 device rest, i < queueMax) ∧
      ∀ loaded left, (virtioLoad bus lduw vdev).run stream = .ok (loaded, left) →
        configLen.toNat = vdev.config.length ∧
          ∀ i < queueMax, QueueSized (loaded.vq i).vring.num (loaded.vq i).pa

/-! ### The queues of a stream -/

section Stream

variable (bus : MigrationBus) (lduw : UInt64 → UInt16)

/-- A queue of the stream, over the queue `vq` of the device. -/
def readRing (i : Nat) (vq : VirtQueue) : Decoder LoadError VirtQueue := do
  let num ← get32
  let align ← getAlign bus vq.vring.align
  let pa ← get64
  let lastAvailIdx ← get16
  let vq ← (checkRing lduw i
    { vq with
      vring := { vq.vring with num, align }
      pa, lastAvailIdx
      signalledUsedValid := false
      notification := true } : Except LoadError VirtQueue)
  bus.loadQueue i
  return vq

/-- The queues of the stream, with `none` for the first that fails the check; it ends the load. -/
def streamQueues (vdev : VirtIODevice) : Nat → Nat → List UInt8 → List (Option VirtQueue)
  | 0, _, _ => []
  | count + 1, i, stream =>
    match (readRing bus lduw i (vdev.vq i)).run stream with
    | .error _ => [none]
    | .ok (vq, rest) => some vq :: streamQueues vdev count (i + 1) rest

/-- The configuration is not longer than what was allocated, and there are not more queues than
the device has. If no queue is refused, the configuration has its length and the queues a
permitted size. -/
def StreamFits (vdev : VirtIODevice) (stream : List UInt8) : Prop :=
  ∀ device configLen num rest,
    (loadDevice bus vdev).run stream = .ok ((device, configLen, num), rest) →
    intCount configLen ≤ vdev.config.length ∧
      (streamQueues bus lduw vdev (intCount num) 0 rest).length ≤ queueMax ∧
      (none ∉ streamQueues bus lduw vdev (intCount num) 0 rest →
        configLen.toNat = vdev.config.length ∧
          ∀ vq, some vq ∈ streamQueues bus lduw vdev (intCount num) 0 rest →
            QueueSized vq.vring.num vq.pa)

end Stream

section Load

variable {bus : MigrationBus} {lduw : UInt64 → UInt16} {vdev device next : VirtIODevice}
  {stream rest : List UInt8} {i count : Nat}

theorem loadRing_run (inside : i < queueMax) : (loadRing bus lduw i device).run stream =
    ((readRing bus lduw i (device.vq i)).run stream).map fun read =>
      (device.setQueue i read.1, read.2) := by
  have program : loadRing bus lduw i device =
      device.setQueue i <$> readRing bus lduw i (device.vq i) := by
    rw [loadRing, if_neg (Nat.not_le.mpr inside)]
    simp only [readRing, map_bind, map_pure]
  rw [program, StateT.run_map]
  rfl

section Queues

variable (same : ∀ k, i ≤ k → device.vq k = vdev.vq k)
include same

theorem setQueue_same (vq : VirtQueue) (k : Nat) (above : i + 1 ≤ k) :
    (device.setQueue i vq).vq k = vdev.vq k :=
  (Function.update_of_ne (by omega) _ _).trans (same k (by omega))

/-- The loop stays inside the array exactly if it has so many queues. -/
theorem queueStores_inside_iff (room : i ≤ queueMax) :
    (∀ k ∈ queueStores bus lduw count i device stream, k < queueMax) ↔
      i + (streamQueues bus lduw vdev count i stream).length ≤ queueMax := by
  induction count generalizing i device stream with
  | zero => simpa [queueStores, streamQueues] using room
  | succ count ih =>
    rw [queueStores, List.forall_mem_cons, streamQueues]
    rcases Nat.lt_or_eq_of_le room with inside | rfl
    · rw [loadRing_run inside, same i (Nat.le_refl i)]
      cases (readRing bus lduw i (vdev.vq i)).run stream with
      | error failure =>
        simp only [Except.map, List.length_singleton]
        exact iff_of_true ⟨inside, List.forall_mem_nil _⟩ inside
      | ok read =>
        have later :=
          @ih (device.setQueue i read.1) read.2 (i + 1) (setQueue_same same read.1) inside
        simp only [Except.map, later, inside, true_and, List.length_cons]
        omega
    · refine iff_of_false (fun stores => Nat.lt_irrefl _ stores.1) ?_
      split <;> simp

/-- The loop fails if a queue is refused. Otherwise its queues are those of the stream, and those
it does not name. -/
theorem loadRings_queues {P : VirtQueue → Prop}
    (few : i + (streamQueues bus lduw vdev count i stream).length ≤ queueMax) :
    (none ∈ streamQueues bus lduw vdev count i stream ∧
        ∃ failure, (loadRings bus lduw count i device).run stream = .error failure) ∨
      none ∉ streamQueues bus lduw vdev count i stream ∧
        ∃ next rest, (loadRings bus lduw count i device).run stream = .ok (next, rest) ∧
          ((∀ k < queueMax, P (next.vq k)) ↔
            (∀ k < queueMax, k < i ∨ i + count ≤ k → P (device.vq k)) ∧
              ∀ vq, some vq ∈ streamQueues bus lduw vdev count i stream → P vq) := by
  induction count generalizing i device stream with
  | zero =>
    refine .inr ⟨List.not_mem_nil, device, stream, rfl, ?_⟩
    simp only [streamQueues, List.not_mem_nil, false_implies, implies_true, and_true, Nat.add_zero]
    exact forall₂_congr fun k _ => (imp_iff_right (Nat.lt_or_ge k i)).symm
  | succ count ih =>
    rw [streamQueues] at few ⊢
    rw [loadRings, StateT.run_bind]
    have inside : i < queueMax := by
      split at few
      all_goals
        simp only [List.length_cons] at few
        omega
    rw [loadRing_run inside, same i (Nat.le_refl i)]
    cases read : (readRing bus lduw i (vdev.vq i)).run stream with
    | error failure => exact .inl ⟨List.mem_singleton_self _, failure, rfl⟩
    | ok found =>
      obtain ⟨vq, after⟩ := found
      simp only [read, List.length_cons] at few
      simp only [Except.map, List.mem_cons, reduceCtorEq, false_or, Option.some.injEq,
        forall_eq_or_imp]
      refine (@ih (device.setQueue i vq) after (i + 1) (setQueue_same same vq) (by omega)).imp_right
        fun ⟨all, next, rest, ran, sized⟩ => ⟨all, next, rest, ran, sized.trans ?_⟩
      rw [← and_assoc]
      refine and_congr_left fun _ =>
        ⟨fun each => ⟨fun k small out => ?_, ?_⟩, fun both k small out => ?_⟩
      · have kept := each k small (by omega)
        rwa [show (device.setQueue i vq).vq k = device.vq k from
          Function.update_of_ne (by omega) _ _] at kept
      · have here := each i inside (.inl (Nat.lt_succ_self i))
        rwa [show (device.setQueue i vq).vq i = vq from Function.update_self _ _ _] at here
      by_cases here : k = i
      · subst here
        rw [show (device.setQueue k vq).vq k = vq from Function.update_self _ _ _]
        exact both.2
      · rw [show (device.setQueue i vq).vq k = device.vq k from Function.update_of_ne here _ _]
        exact both.1 k small (by omega)

end Queues

theorem loadFeatures_keeps (vdev : VirtIODevice) (features : UInt32) :
    Always (loadFeatures bus vdev features) fun next =>
      next.vq = vdev.vq ∧ next.config = vdev.config := by
  rintro stream next rest accepted
  rw [loadFeatures] at accepted
  dsimp only at accepted
  split at accepted
  · cases accepted
  · cases accepted
    exact ⟨rfl, rfl⟩

/-- The part before the queues, from the configuration on: `tail` is the stream behind
`config_len`. -/
theorem loadDevice_config {configLen num : UInt32}
    (header : (loadDevice bus vdev).run stream = .ok ((device, configLen, num), rest)) :
    device.vq = vdev.vq ∧ ∃ tail : List UInt8,
      device.config.length = max (min (intCount configLen) tail.length) vdev.config.length ∧
        (get32 : Decoder LoadError UInt32).run (tail.drop (intCount configLen)) =
          .ok (num, rest) := by
  obtain ⟨_, _, -, header⟩ := run_bind_ok.mp header
  obtain ⟨status, _, -, header⟩ := run_bind_ok.mp header
  obtain ⟨isr, _, -, header⟩ := run_bind_ok.mp header
  obtain ⟨queueSel, _, -, header⟩ := run_bind_ok.mp header
  obtain ⟨features, _, -, header⟩ := run_bind_ok.mp header
  obtain ⟨mid, _, taken, header⟩ := run_bind_ok.mp header
  obtain ⟨length, tail, -, header⟩ := run_bind_ok.mp header
  obtain ⟨config, _, bytes, header⟩ := run_bind_ok.mp header
  obtain ⟨count, left, queues, built⟩ := run_bind_ok.mp header
  obtain ⟨sameQueues, sameConfig⟩ := loadFeatures_keeps _ _ _ _ _ taken
  cases bytes
  cases built
  refine ⟨sameQueues, tail, ?_, queues⟩
  dsimp only at sameConfig ⊢
  rw [sameConfig, List.length_append, List.length_drop, List.length_take]
  omega

theorem intCount_le (count : UInt32) : intCount count ≤ count.toNat := by
  rw [intCount]
  split
  · exact Nat.le_refl _
  · exact Nat.zero_le _

end Load

/-- `virtio_load` is safe exactly on the streams whose fields fit the device. One that ends in the
configuration reads as one without queues. -/
theorem virtioLoad_safe_iff (bus : MigrationBus) (lduw : UInt64 → UInt16) {vdev : VirtIODevice}
    {stream : List UInt8}
    (sized : ∀ i < queueMax, QueueSized (vdev.vq i).vring.num (vdev.vq i).pa) :
    SafeLoad bus lduw vdev stream ↔ StreamFits bus lduw vdev stream := by
  refine forall₄_congr fun device configLen num rest => forall_congr' fun header => ?_
  obtain ⟨vq, tail, length, queues⟩ := loadDevice_config header
  have same : ∀ k, 0 ≤ k → device.vq k = vdev.vq k := fun k _ => by rw [vq]
  have load : (virtioLoad bus lduw vdev).run stream =
      (loadRings bus lduw (intCount num) 0 device).run rest := by
    rw [virtioLoad, StateT.run_bind, header]
    rfl
  rw [load, queueStores_inside_iff same (Nat.zero_le _), Nat.zero_add, and_left_comm,
    and_left_comm (b := _ ≤ queueMax)]
  refine and_congr_right fun few => ?_
  have outcome := @loadRings_queues bus lduw vdev device rest 0 (intCount num) same
    (fun vq => QueueSized vq.vring.num vq.pa) (by rwa [Nat.zero_add])
  have bounded : intCount configLen ≤ vdev.config.length → device.config.length ≤
      vdev.config.length := by
    omega
  obtain ⟨refused, failure, ran⟩ | ⟨all, next, left, ran, kept⟩ := outcome
  · simp only [ran, reduceCtorEq, false_implies, implies_true, and_true, refused, not_true_eq_false]
    refine ⟨fun inside => ?_, bounded⟩
    by_contra long
    have empty : tail.drop (intCount configLen) = [] := List.drop_of_length_le (by omega)
    rw [empty] at queues
    cases queues
    cases ran
  · rw [ran, forall_prop_of_true all]
    constructor
    · rintro ⟨-, ends⟩
      obtain ⟨exact, sizes⟩ := ends next left rfl
      exact ⟨(intCount_le configLen).trans exact.le, exact, (kept.mp sizes).2⟩
    · rintro ⟨short, exact, each⟩
      refine ⟨bounded short, fun loaded after ended => ⟨exact, ?_⟩⟩
      cases ended
      refine kept.mpr ⟨fun k small _ => ?_, each⟩
      rw [vq]
      exact sized k small

def freshDevice : VirtIODevice := { virtioInit 4 with vq := classQueue [128] }

/-- A stream without features for a device with four bytes of configuration. -/
def shortStream (configLen count : UInt8) (queue : List UInt8) : List UInt8 :=
  List.replicate 11 0 ++ configLen :: (List.replicate configLen.toNat 1 ++ 0 :: 0 :: 0 :: count ::
    queue)

def shortQueueFields (num : UInt8) : List UInt8 :=
  [0, 0, num, 0, 0, 0, 0x10, 0, 0, 0, 0, 0, 0, 0, 0x10, 0, 0, 0]

theorem freshDevice_sized :
    ∀ i < queueMax, QueueSized (freshDevice.vq i).vring.num (freshDevice.vq i).pa := by
  unfold QueueSized
  decide +kernel

def refusedQueueFields : List UInt8 := [0, 0, 1, 0, 0, 0, 0x10, 0, 0, 0, 0, 0, 0, 0, 0, 0, 0, 1]

/-- One queue of 256 entries; and 65 queues, of which the first is refused. -/
theorem virtioLoad_safe_oneQueue :
    SafeLoad plainBus (fun _ => 0) freshDevice (shortStream 4 1 (shortQueueFields 1)) ∧
      SafeLoad plainBus (fun _ => 0) freshDevice (shortStream 4 65 refusedQueueFields) := by
  constructor
  · refine (virtioLoad_safe_iff _ _ freshDevice_sized).mpr fun _ configLen num rest header => ?_
    cases header
    refine ⟨by decide, by decide, fun _ => ⟨by decide, fun vq member => ?_⟩⟩
    cases List.mem_singleton.mp member
    exact ⟨by decide, by decide⟩
  · refine (virtioLoad_safe_iff _ _ freshDevice_sized).mpr fun _ configLen num rest header => ?_
    cases header
    exact ⟨by decide, by decide, fun all => absurd (List.mem_singleton_self none) all⟩

/-- Streams with 65 queues, with five bytes of configuration, with a queue of 65280 entries, and
with a queue that has an address and no entries. -/
theorem virtioLoad_unsafe :
    ¬ SafeLoad plainBus (fun _ => 0) freshDevice (shortStream 4 65 []) ∧
      ¬ SafeLoad plainBus (fun _ => 0) freshDevice (shortStream 5 0 []) ∧
      ¬ SafeLoad plainBus (fun _ => 0) freshDevice (shortStream 4 1 (shortQueueFields 255)) ∧
      ¬ SafeLoad plainBus (fun _ => 0) freshDevice (shortStream 4 1 (shortQueueFields 0)) := by
  refine ⟨fun safe => ?_, fun safe => ?_, fun safe => ?_, fun safe => ?_⟩
  · have inside := (safe _ _ _ _ rfl).2.1 64 (by decide +kernel)
    exact absurd inside (by decide)
  · have written := (safe _ _ _ _ rfl).1
    exact absurd written (by decide)
  · have sized := ((safe _ _ _ _ rfl).2.2 _ _ rfl).2 0 (by decide)
    exact absurd sized.1 (by decide)
  · have sized := ((safe _ _ _ _ rfl).2.2 _ _ rfl).2 0 (by decide)
    exact absurd rfl (sized.2 (by decide))

end VhostUser.Qemu.Virtio
