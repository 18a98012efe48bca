import VhostUser.Qemu.DeviceWrites

/-!
Contract: `address_space_access_valid` (`exec.c`) next to `address_space_rw`.

Both go over a range in accesses to one region each. For a region that is not accessed directly,
`address_space_rw` bounds the size of an access by the alignment of the offset in the region, and
`address_space_access_valid` by that of the address.

Owns: on which ranges the answer is about the accesses that are made.
-/

namespace VhostUser.Qemu

/-- What `memory_region_access_valid` reads of `MemoryRegionOps`, beyond `AccessOps`. -/
structure ValidOps where
  minAccessSize : UInt32
  unaligned : Bool
  accepts : Option (UInt64 → UInt32 → Bool → Bool)

def memoryRegionAccessValid (ops : AccessOps) (rules : ValidOps) (addr : UInt64) (size : UInt32)
    (isWrite : Bool) : Bool :=
  if !rules.unaligned && addr &&& (size - 1).toUInt64 ≠ 0 then false
  else
    match rules.accepts with
    | none => true
    | some accepts =>
      let accessSizeMin := if rules.minAccessSize = 0 then 1 else rules.minAccessSize
      let accessSizeMax := if ops.maxAccessSize = 0 then 4 else ops.maxAccessSize
      let accessSize := max (min size accessSizeMax) accessSizeMin
      (List.range size.toNat).all fun i =>
        i % accessSize.toNat ≠ 0 || accepts (addr + .ofNat i) accessSize isWrite

structure RegionAccess where
  mr : PhysRegion
  offset : UInt64
  len : Nat
deriving DecidableEq

namespace AccessEnv

variable (env : AccessEnv) (rules : PhysRegion → ValidOps)

/-- `address_space_access_valid`, with the accesses that it considers. -/
def addressSpaceAccessValid (isWrite : Bool) (turns space : Nat) :
    Nat → UInt64 → Nat → Except DispatchError (List RegionAccess × Bool)
  | 0, _, len => if len = 0 then .ok ([], true) else .error .unfinished
  | left + 1, addr, len =>
    if len = 0 then .ok ([], true)
    else do
      let (mr, xlat, l) ← env.addressSpaceTranslate turns space addr (.ofNat len) isWrite
      let direct := env.memoryAccessIsDirect isWrite mr
      let l := if direct then l.toNat else (memoryAccessSize (env.ops mr) l.toUInt32 addr).toNat
      if !direct && !memoryRegionAccessValid (env.ops mr) (rules mr) xlat (.ofNat l) isWrite then
        return ([⟨mr, xlat, l⟩], false)
      else
        let (rest, valid) ← addressSpaceAccessValid isWrite turns space left (addr + .ofNat l)
          (len - l)
        return (⟨mr, xlat, l⟩ :: rest, valid)

/-- The error that `address_space_rw` returns: an access to a device was refused. -/
def rwError (isWrite : Bool) (transfers : List Transfer) : Bool :=
  transfers.any fun moved =>
    match moved with
    | .copy .. => false
    | .io mr addr len =>
      !memoryRegionAccessValid (env.ops mr) (rules mr) addr (.ofNat len) isWrite

def Makes (isWrite : Bool) (access : RegionAccess) : Transfer → Prop
  | .copy ramAddr _ len => env.memoryAccessIsDirect isWrite access.mr = true ∧
      ramAddr = env.ramAddrOf access.mr + access.offset ∧ len = access.len
  | .io mr addr len => access = ⟨mr, addr, len⟩

/-- The two functions make the same accesses, up to the first that is refused, and the answer is
whether `address_space_rw` returns no error. -/
def AnswersFor (isWrite : Bool) (turns space left : Nat) (addr : UInt64) (len : Nat) : Prop :=
  ∃ accesses valid transfers,
    env.addressSpaceAccessValid rules isWrite turns space left addr len = .ok (accesses, valid) ∧
    env.addressSpaceRw isWrite turns space left addr len = .ok transfers ∧
    List.Forall₂ (env.Makes isWrite) accesses (transfers.take accesses.length) ∧
    (valid = true → accesses.length = transfers.length) ∧
    valid = !env.rwError rules isWrite transfers

/-- Each access to a device has the size that it would have if the address were its offset, up to
the first that is refused. A direct access takes all that is left. -/
def AlignedAlike (isWrite : Bool) : Nat → UInt64 → Nat → Prop
  | 0, _, _ => True
  | left + 1, addr, len =>
    let mr := (env.resolve addr).1
    let offset := (env.resolve addr).2
    let size := memoryAccessSize (env.ops mr) (UInt64.ofNat len).toUInt32 offset
    len = 0 ∨ env.memoryAccessIsDirect isWrite mr = true ∨
      memoryAccessSize (env.ops mr) (UInt64.ofNat len).toUInt32 addr = size ∧
        (memoryRegionAccessValid (env.ops mr) (rules mr) offset size isWrite = true →
          AlignedAlike isWrite left (addr + .ofNat size.toNat) (len - size.toNat))

variable {env rules} {isWrite : Bool} {space turns left len : Nat} {addr : UInt64}

theorem answersFor_zero (addr : UInt64) : env.AnswersFor rules isWrite turns space left addr 0 := by
  cases left with
  | zero => exact ⟨[], true, [], rfl, rfl, .nil, fun _ => rfl, rfl⟩
  | succ left => exact ⟨[], true, [], rfl, rfl, .nil, fun _ => rfl, rfl⟩

section Turn

variable {mr : PhysRegion} {offset : UInt64} (mapped : env.Mapped space) (some : len ≠ 0)
  (here : env.resolve addr = (mr, offset))
include mapped some here

theorem addressSpaceRw_cons {first : Transfer} {transfers : List Transfer}
    (moved : env.transfer isWrite mr offset (.ofNat len) = .ok first)
    (ran : env.addressSpaceRw isWrite (turns + 1) space left (addr + .ofNat first.len)
      (len - first.len) = .ok transfers) :
    env.addressSpaceRw isWrite (turns + 1) space (left + 1) addr len =
      .ok (first :: transfers) := by
  rw [addressSpaceRw, if_neg some, mapped.translate, here]
  simp only [bind, Except.bind, moved, ran]
  rfl

theorem answersFor_direct (small : len < 2 ^ 31)
    (direct : env.memoryAccessIsDirect isWrite mr = true) :
    env.AnswersFor rules isWrite (turns + 1) space (left + 1) addr len := by
  rcases mapped.transfer_cases isWrite (Nat.pos_of_ne_zero some) small here with
    ⟨-, block, -, moved⟩ | ⟨device, -⟩
  · obtain ⟨accesses, valid, transfers, checked, ran, made, whole, answer⟩ :=
      @answersFor_zero env rules isWrite space (turns + 1) left (addr + .ofNat len)
    rw [← Nat.sub_self len] at checked ran
    have size : (UInt64.ofNat len).toNat = len := by
      rw [UInt64.toNat_ofNat']
      omega
    refine ⟨⟨mr, offset, len⟩ :: accesses, valid, _ :: transfers, ?_,
      addressSpaceRw_cons mapped some here moved ran, .cons ⟨direct, rfl, rfl⟩ made,
      fun ok => congrArg (· + 1) (whole ok), ?_⟩
    · rw [addressSpaceAccessValid, if_neg some, mapped.translate, here]
      simp only [bind, Except.bind, direct, if_true, size, Bool.not_true, Bool.false_and,
        Bool.false_eq_true, if_false, checked]
      rfl
    · rw [answer]
      simp [rwError]
  · rw [direct] at device
    cases device

/-- An access to a device has to have the size that `address_space_rw` gives it, and so have those
behind it, unless it is refused. -/
theorem answersFor_device_iff {size : Nat} {transfers : List Transfer}
    (device : env.memoryAccessIsDirect isWrite mr = false)
    (moved : env.transfer isWrite mr offset (.ofNat len) = .ok (.io mr offset size))
    (ran : env.addressSpaceRw isWrite (turns + 1) space left (addr + .ofNat size) (len - size) =
      .ok transfers) :
    env.AnswersFor rules isWrite (turns + 1) space (left + 1) addr len ↔
      (memoryAccessSize (env.ops mr) (UInt64.ofNat len).toUInt32 addr).toNat = size ∧
        (memoryRegionAccessValid (env.ops mr) (rules mr) offset (.ofNat size) isWrite = true →
          env.AnswersFor rules isWrite (turns + 1) space left (addr + .ofNat size)
            (len - size)) := by
  have run := addressSpaceRw_cons mapped some here moved ran
  have error : env.rwError rules isWrite (.io mr offset size :: transfers) =
      (!memoryRegionAccessValid (env.ops mr) (rules mr) offset (.ofNat size) isWrite ||
        env.rwError rules isWrite transfers) := by
    simp [rwError]
  unfold AnswersFor
  rw [run, addressSpaceAccessValid, if_neg some, mapped.translate, here]
  simp only [bind, Except.bind, device, Bool.false_eq_true, if_false, Bool.not_false, Bool.true_and,
    ran]
  generalize (memoryAccessSize (env.ops mr) (UInt64.ofNat len).toUInt32 addr).toNat = l
  cases valid : memoryRegionAccessValid (env.ops mr) (rules mr) offset (.ofNat l) isWrite with
  | false =>
    simp only [Bool.not_false, if_true]
    constructor
    · rintro ⟨_, _, _, ⟨⟩, ⟨⟩, made, -⟩
      cases made with
      | cons makes _ =>
        cases makes
        exact ⟨rfl, fun accepted => absurd (valid.symm.trans accepted) Bool.false_ne_true⟩
    · rintro ⟨rfl, -⟩
      exact ⟨_, _, _, rfl, rfl, .cons rfl .nil, fun wrong => absurd wrong Bool.false_ne_true,
        by rw [error, valid]; rfl⟩
  | true =>
    simp only [Bool.not_true, Bool.false_eq_true, if_false]
    constructor
    · rintro ⟨accesses, answer, _, checked, ⟨⟩, made, whole, same⟩
      split at checked
      · cases checked
      next later checkedLater =>
      cases checked
      cases made with
      | cons makes made =>
        cases makes
        refine ⟨rfl, fun _ => ⟨later.1, later.2, transfers, checkedLater, rfl, made,
          fun ok => Nat.succ.inj (whole ok), ?_⟩⟩
        rwa [error, valid] at same
    · rintro ⟨rfl, rest⟩
      obtain ⟨accesses, answer, _, checked, ⟨⟩, made, whole, same⟩ := rest valid
      refine ⟨⟨mr, offset, l⟩ :: accesses, answer, _, ?_, rfl, .cons rfl made,
        fun ok => congrArg (· + 1) (whole ok), ?_⟩
      · rw [checked]
        rfl
      · rw [error, valid]
        exact same

end Turn

/-- Without an IOMMU, `address_space_access_valid` answers for the accesses of `address_space_rw`
exactly over the ranges in which addresses are aligned like the offsets. -/
theorem addressSpaceAccessValid_answers_iff (mapped : env.Mapped space) (turns : Nat)
    (rules : PhysRegion → ValidOps) (isWrite : Bool) (addr : UInt64) {len : Nat}
    (small : len < 2 ^ 31) :
    env.AnswersFor rules isWrite (turns + 1) space len addr len ↔
      env.AlignedAlike rules isWrite len addr len := by
  -- the number of turns is any that suffices
  suffices enough : ∀ left, len ≤ left →
      (env.AnswersFor rules isWrite (turns + 1) space left addr len ↔
        env.AlignedAlike rules isWrite left addr len) from enough len le_rfl
  intro left enough
  induction left generalizing addr len with
  | zero =>
    obtain rfl : len = 0 := by omega
    exact iff_of_true (answersFor_zero addr) trivial
  | succ left ih =>
    by_cases done : len = 0
    · subst done
      exact iff_of_true (answersFor_zero addr) (.inl rfl)
    cases here : env.resolve addr with | mk mr offset
    simp only [AlignedAlike, here, done, false_or]
    rcases mapped.transfer_cases isWrite (Nat.pos_of_ne_zero done) small here with
      ⟨direct, -⟩ | ⟨device, size, positive, most, moved⟩
    · exact iff_of_true (answersFor_direct mapped done here small direct) (.inl direct)
    have chosen := moved
    simp only [transfer, device, Bool.false_eq_true, if_false] at chosen
    split at chosen
    · cases chosen
      obtain ⟨transfers, ran, -⟩ := @Mapped.ramRanges env space mapped turns isWrite left
        (len - (memoryAccessSize (env.ops mr) (UInt64.ofNat len).toUInt32 offset).toNat)
        (addr + .ofNat (memoryAccessSize (env.ops mr) (UInt64.ofNat len).toUInt32 offset).toNat)
        (by omega) (by omega)
      rw [answersFor_device_iff mapped done here device moved ran, UInt32.toNat_inj,
        UInt32.ofNat_toNat, ih _ (by omega) (by omega)]
      simp only [device, Bool.false_eq_true, false_or]
    · cases chosen

end AccessEnv

def halfWords : ValidOps := ⟨0, true, some fun _ size _ => size ≤ 2⟩

/-- A device whose first byte is at the address 0x1002. -/
def shiftedRegions : Regions := fun _ =>
  { memoryRegionInit 0x10 with terminates := true, addr := 0x1002 }

theorem shifted_generated : generateMemoryTopology shiftedRegions 1 (some 3) =
    some [⟨3, 0, ⟨0x1002, 0x10⟩, 0, true, false⟩] := by
  decide +kernel

def shiftedEnv : AccessEnv :=
  .ofGuest (.ofTopology ⟨[], by decide, by decide, by decide⟩ (fun _ _ => 0) (fun _ _ _ => none)
    (fun _ isRam => by cases isRam) shifted_generated)

theorem shifted_mapped : shiftedEnv.Mapped 0 := AccessEnv.ofGuest_mapped (by decide +kernel)

/-- Three bytes: one in front of the device, and its first two. -/
theorem addressSpaceAccessValid_answers_device : shiftedEnv.Mapped 0 ∧
    shiftedEnv.AnswersFor (fun _ => halfWords) true 1 0 3 0x1001 3 ∧
    shiftedEnv.addressSpaceRw true 1 0 3 0x1001 3 =
      .ok [.io .unassigned 0x1001 1, .io (.memory 3) 0 2] := by
  refine ⟨shifted_mapped, (AccessEnv.addressSpaceAccessValid_answers_iff shifted_mapped 0 _ true
    0x1001 (by decide)).mpr ?_, by decide +kernel⟩
  refine .inr (.inr ⟨?_, fun _ => .inr (.inr ⟨?_, fun _ => .inl ?_⟩)⟩)
  all_goals decide +kernel

/-- Two accesses of two bytes are found valid. The write is one access of four bytes, and is
refused. -/
theorem addressSpaceAccessValid_differs : shiftedEnv.Mapped 0 ∧
    shiftedEnv.addressSpaceAccessValid (fun _ => halfWords) true 1 0 4 0x1002 4 =
      .ok ([⟨.memory 3, 0, 2⟩, ⟨.memory 3, 2, 2⟩], true) ∧
    shiftedEnv.addressSpaceRw true 1 0 4 0x1002 4 = .ok [.io (.memory 3) 0 4] ∧
    shiftedEnv.rwError (fun _ => halfWords) true [.io (.memory 3) 0 4] = true := by
  refine ⟨shifted_mapped, ?_, ?_, ?_⟩
  all_goals decide +kernel

end VhostUser.Qemu
