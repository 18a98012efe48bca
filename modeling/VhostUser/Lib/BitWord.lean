import Mathlib.Data.List.Basic

/-!
Contract: machine words as sets of bits, and loops that move single bits between words.

The loops go over a list of bit numbers and test, set or clear `1 << bit`. Their results
are read bit by bit.
-/

namespace VhostUser.Lib.BitWord

variable {v w bit : Nat} {word : BitVec w}

def hasBit (word : BitVec w) (bit : Nat) : Bool := word &&& BitVec.twoPow w bit ≠ 0

def setBit (word : BitVec w) (bit : Nat) : BitVec w := word ||| BitVec.twoPow w bit

def clearBit (word : BitVec w) (bit : Nat) : BitVec w := word &&& ~~~BitVec.twoPow w bit

def copyBits (bits : List Nat) (source : BitVec v) (target : BitVec w) : BitVec w :=
  bits.foldl (fun word bit => if hasBit source bit then setBit word bit else word) target

def keepBits (bits : List Nat) (offer : BitVec v) (word : BitVec w) : BitVec w :=
  bits.foldl (fun word bit => if !hasBit offer bit then clearBit word bit else word) word

def clearBits (bits : List Nat) (word : BitVec w) : BitVec w := bits.foldl clearBit word

theorem hasBit_eq (small : bit < w) : hasBit word bit = word.getLsbD bit := by
  have positive : BitVec.twoPow w bit ≠ 0 := by
    intro zero
    have none : (BitVec.twoPow w bit).getLsbD bit = (0 : BitVec w).getLsbD bit := by rw [zero]
    rw [BitVec.getLsbD_twoPow] at none
    simp [small] at none
  rw [hasBit, BitVec.and_twoPow]
  cases word.getLsbD bit with
  | true => simpa using positive
  | false => simp

@[simp]
theorem getLsbD_setBit {i : Nat} (small : bit < w) :
    (setBit word bit).getLsbD i = (word.getLsbD i || decide (i = bit)) := by
  simp [setBit, BitVec.getLsbD_or, BitVec.getLsbD_twoPow, small, eq_comm]

@[simp]
theorem getLsbD_clearBit {i : Nat} :
    (clearBit word bit).getLsbD i = (word.getLsbD i && !decide (i = bit)) := by
  rw [clearBit, BitVec.getLsbD_and, BitVec.getLsbD_not, BitVec.getLsbD_twoPow]
  by_cases inside : i < w
  · by_cases same : i = bit
    · subst same
      simp [inside]
    · simp [inside, same, Ne.symm same]
  · rw [BitVec.getLsbD_of_ge _ _ (Nat.le_of_not_lt inside)]
    rfl

theorem getLsbD_of_covered {offer : BitVec w} (covered : ~~~offer &&& word = 0)
    (set : word.getLsbD bit = true) : offer.getLsbD bit = true := by
  have absent : (~~~offer &&& word).getLsbD bit = false := by
    rw [covered]
    exact BitVec.getLsbD_zero
  have inside : bit < w := BitVec.lt_of_getLsbD set
  rw [BitVec.getLsbD_and, set, Bool.and_true, BitVec.getLsbD_not, decide_eq_true inside,
    Bool.true_and, Bool.not_eq_false'] at absent
  exact absent

theorem and_eq_self_of_covered {offer : BitVec w} (covered : ~~~offer &&& word = 0) :
    word &&& offer = word := by
  refine BitVec.eq_of_getLsbD_eq fun bit _ => ?_
  rw [BitVec.getLsbD_and]
  cases set : word.getLsbD bit with
  | false => rfl
  | true => rw [getLsbD_of_covered covered set, Bool.and_true]

section Loops

variable {bits : List Nat} {i : Nat}

theorem getLsbD_copyBits {source : BitVec v} {target : BitVec w}
    (small : ∀ bit ∈ bits, bit < v ∧ bit < w) :
    (copyBits bits source target).getLsbD i =
      (target.getLsbD i || (decide (i ∈ bits) && source.getLsbD i)) := by
  induction bits generalizing target with
  | nil => simp [copyBits]
  | cons bit rest ih =>
    have inside := small bit List.mem_cons_self
    have later : ∀ bit ∈ rest, bit < v ∧ bit < w :=
      fun other member => small other (List.mem_cons_of_mem _ member)
    rw [copyBits, List.foldl_cons, ← copyBits, ih later, hasBit_eq inside.1]
    cases set : source.getLsbD bit with
    | false =>
      by_cases same : i = bit
      · simp [same, set]
      · simp [same]
    | true =>
      rw [if_pos rfl, getLsbD_setBit inside.2]
      by_cases same : i = bit
      · simp [same, set]
      · simp [same]

theorem getLsbD_keepBits {offer : BitVec v} {word : BitVec w} (small : ∀ bit ∈ bits, bit < v) :
    (keepBits bits offer word).getLsbD i =
      (word.getLsbD i && (!decide (i ∈ bits) || offer.getLsbD i)) := by
  induction bits generalizing word with
  | nil => simp [keepBits]
  | cons bit rest ih =>
    have later : ∀ bit ∈ rest, bit < v :=
      fun other member => small other (List.mem_cons_of_mem _ member)
    rw [keepBits, List.foldl_cons, ← keepBits, ih later, hasBit_eq (small bit List.mem_cons_self)]
    by_cases same : i = bit
    · cases set : offer.getLsbD bit <;> simp [same, set]
    · cases set : offer.getLsbD bit <;> simp [same]

theorem getLsbD_clearBits {word : BitVec w} (other : i ∉ bits) :
    (clearBits bits word).getLsbD i = word.getLsbD i := by
  induction bits generalizing word with
  | nil => rfl
  | cons bit rest ih =>
    rw [List.mem_cons, not_or] at other
    rw [clearBits, List.foldl_cons, ← clearBits, ih other.2]
    simp [other.1]

end Loops

theorem and_not_add_and (value mask : UInt64) : (value &&& ~~~mask) + (value &&& mask) = value := by
  apply UInt64.toBitVec_inj.mp
  simp only [UInt64.toBitVec_add, UInt64.toBitVec_and, UInt64.toBitVec_not]
  rw [BitVec.add_eq_or_of_and_eq_zero]
  · ext i
    simp only [BitVec.getElem_or, BitVec.getElem_and, BitVec.getElem_not]
    cases value.toBitVec[i] <;> cases mask.toBitVec[i] <;> rfl
  · ext i
    simp only [BitVec.getElem_and, BitVec.getElem_not, BitVec.getElem_zero]
    cases value.toBitVec[i] <;> cases mask.toBitVec[i] <;> rfl

end VhostUser.Lib.BitWord
