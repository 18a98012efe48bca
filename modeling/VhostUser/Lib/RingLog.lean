import Mathlib.Data.Nat.ModEq
import Mathlib.Logic.Function.Basic
import Mathlib.Tactic.NormNum.Basic

/-!
Contract: rings addressed by free-running 16-bit counters, and a ring as the window on a log
that only grows.

When `num` divides `2^16` the slot of a counter after `k` steps is the slot of the unwrapped
sum, and `num` consecutive counter values use distinct slots. Entry `j` of a log goes to slot
`j % num`. As long as fewer than `num` entries are between the first one that is still needed
and the end, the next entry goes to a slot that holds none of them.
-/

namespace VhostUser.Lib

def ringSlot (num counter steps : Nat) : Nat :=
  (counter + steps) % num

variable {num : Nat}

theorem ringSlot_lt (positive : 0 < num) (counter steps : Nat) : ringSlot num counter steps < num :=
  Nat.mod_lt _ positive

theorem ringSlot_mod (num counter steps : Nat) :
    ringSlot num (counter % num) steps = ringSlot num counter steps := by
  simp [ringSlot]

theorem ringSlot_succ (divides : num ∣ 65536) (counter : UInt16) (steps : Nat) :
    ringSlot num (counter + 1).toNat steps = ringSlot num counter.toNat (steps + 1) := by
  unfold ringSlot
  rw [UInt16.toNat_add]
  have wrapped : (counter.toNat + 1) % 65536 % num = (counter.toNat + 1) % num :=
    Nat.mod_mod_of_dvd _ divides
  calc ((counter.toNat + UInt16.toNat 1) % 2 ^ 16 + steps) % num
      = ((counter.toNat + 1) % 65536 % num + steps) % num := by simp
    _ = ((counter.toNat + 1) % num + steps) % num := by rw [wrapped]
    _ = (counter.toNat + (steps + 1)) % num := by
        rw [Nat.mod_add_mod]
        congr 1
        omega

/-- Fewer than `num` steps never come back to the same slot. -/
theorem ringSlot_ne {counter first second : Nat} (before : first < second)
    (close : second < first + num) : ringSlot num counter first ≠ ringSlot num counter second := by
  intro same
  have congruent : (counter + first) ≡ (counter + second) [MOD num] := same
  have cancelled : first ≡ second [MOD num] := Nat.ModEq.add_left_cancel' counter congruent
  have divides : num ∣ second - first := (Nat.modEq_iff_dvd' (by omega)).mp cancelled
  have := Nat.le_of_dvd (by omega) divides
  omega

theorem dvd_of_pow_two {exponent : Nat} (small : exponent ≤ 15) (power : num = 2 ^ exponent) :
    num ∣ 65536 ∧ num ≤ 32768 ∧ 0 < num := by
  subst power
  refine ⟨?_, ?_, Nat.two_pow_pos exponent⟩
  · exact Nat.pow_dvd_pow 2 (n := 16) (by omega)
  · exact Nat.pow_le_pow_right (by decide) small

/-! ### Wrapping counters -/

theorem counter_add (count more : Nat) :
    UInt16.ofNat count + UInt16.ofNat more = UInt16.ofNat (count + more) :=
  (UInt16.ofNat_add count more).symm

theorem counter_sub {earlier later : Nat} (ordered : earlier ≤ later)
    (close : later < earlier + 65536) :
    (UInt16.ofNat later - UInt16.ofNat earlier).toNat = later - earlier := by
  rw [UInt16.toNat_sub, UInt16.toNat_ofNat', UInt16.toNat_ofNat']
  omega

theorem counter_eq_iff {earlier later : Nat} (ordered : earlier ≤ later)
    (close : later < earlier + 65536) :
    UInt16.ofNat later = UInt16.ofNat earlier ↔ later = earlier := by
  constructor
  · intro same
    have distance := counter_sub ordered close
    rw [same, UInt16.sub_self, UInt16.toNat_zero] at distance
    omega
  · rintro rfl
    rfl

theorem counter_slot (divides : num ∣ 65536) (count : Nat) :
    (UInt16.ofNat count).toNat % num = count % num := by
  rw [UInt16.toNat_ofNat']
  exact Nat.mod_mod_of_dvd _ divides

/-! ### The window -/

variable {α : Type*} {first : Nat} {slot : Nat → α} {log : List α}

/-- The slots hold the entries of the log from `first` on. -/
def RingLog (num : Nat) (slot : Nat → α) (log : List α) (first : Nat) : Prop :=
  ∀ j entry, first ≤ j → log[j]? = some entry → slot (j % num) = entry

theorem RingLog.empty : RingLog num slot ([] : List α) first := by
  intro j entry _ found
  simp at found

theorem RingLog.later {next : Nat} (held : RingLog num slot log first) (le : first ≤ next) :
    RingLog num slot log next :=
  fun j entry from_ found => held j entry (le.trans from_) found

theorem next_slot_ne {j : Nat} (from_ : first ≤ j) (inside : j < log.length)
    (room : log.length < first + num) : j % num ≠ log.length % num := by
  have distinct := @ringSlot_ne num 0 j log.length inside (by omega)
  simpa only [ringSlot, Nat.zero_add] using distinct

theorem RingLog.write (held : RingLog num slot log first) (room : log.length < first + num)
    (entry : α) :
    RingLog num (Function.update slot (log.length % num) entry) (log ++ [entry]) first := by
  intro j other from_ found
  rcases Nat.lt_or_ge j log.length with inside | outside
  · rw [List.getElem?_append_left inside] at found
    rw [Function.update_of_ne (next_slot_ne from_ inside room)]
    exact held j other from_ found
  · rw [List.getElem?_append_right outside, List.getElem?_singleton,
      Option.ite_none_right_eq_some] at found
    have last : j = log.length := by omega
    rw [last, Function.update_self]
    exact Option.some.inj found.2

end VhostUser.Lib
