import Mathlib.Data.Nat.Digits.Lemmas

/-!
Contract: hexadecimal numbers as `printf` writes and `scanf` reads them.

`printHex width` is the conversion `%0<width>x`: lower-case digits with leading zeros up to a
minimum width. `scanHex` is the conversion `%x`: white space, a sign, the prefix `0x` and digits
of either case, as many as there are. Text is a list of bytes.

Owns:
- when a printed number has exactly its minimum width;
- that a printed number is read back, with exactly the text that follows it.

Does not own: where a scanned number is stored (`Scanned.word` says what is stored).
-/

namespace VhostUser.Lib.HexText

/-! ### Digits -/

def digitByte (digit : Nat) : UInt8 :=
  if digit < 10 then .ofNat (48 + digit) else .ofNat (87 + digit)

def digitValue? (byte : UInt8) : Option Nat :=
  if 48 ≤ byte.toNat ∧ byte.toNat ≤ 57 then some (byte.toNat - 48)
  else if 65 ≤ byte.toNat ∧ byte.toNat ≤ 70 then some (byte.toNat - 55)
  else if 97 ≤ byte.toNat ∧ byte.toNat ≤ 102 then some (byte.toNat - 87)
  else none

variable {digit value width : Nat}

theorem digitValue?_digitByte (small : digit < 16) :
    digitValue? (digitByte digit) = some digit := by
  have all : ∀ digit < 16, digitValue? (digitByte digit) = some digit := by decide
  exact all digit small

/-! ### Printing -/

/-- The digits of a number, most significant first, with leading zeros. -/
def paddedDigits (width value : Nat) : List Nat :=
  List.replicate (width - (Nat.digits 16 value).length) 0 ++ (Nat.digits 16 value).reverse

/-- The conversion `%0<width>x`, for a positive width. -/
def printHex (width value : Nat) : List UInt8 :=
  (paddedDigits width value).map digitByte

theorem paddedDigits_lt (member : digit ∈ paddedDigits width value) : digit < 16 := by
  rcases List.mem_append.mp member with zero | listed
  · rw [List.eq_of_mem_replicate zero]
    decide
  · exact Nat.digits_lt_base (by decide) (List.mem_reverse.mp listed)

theorem length_paddedDigits (fits : value < 16 ^ width) :
    (paddedDigits width value).length = width := by
  have short : (Nat.digits 16 value).length ≤ width :=
    (Nat.digits_length_le_iff (by decide) value).mpr fits
  rw [paddedDigits, List.length_append, List.length_replicate, List.length_reverse]
  omega

/-- A number that fits its minimum width is printed in exactly that width. -/
theorem length_printHex (fits : value < 16 ^ width) : (printHex width value).length = width := by
  rw [printHex, List.length_map, length_paddedDigits fits]

theorem ofDigits_paddedDigits (width value : Nat) :
    Nat.ofDigits 16 (paddedDigits width value).reverse = value := by
  rw [paddedDigits, List.reverse_append, List.reverse_reverse, List.reverse_replicate,
    Nat.ofDigits_append_replicate_zero, Nat.ofDigits_digits]

/-! ### Scanning -/

def isSpace (byte : UInt8) : Bool :=
  byte = 32 || (9 ≤ byte && byte ≤ 13)

/-- The hexadecimal digits at the front of a text, and what follows them. -/
def spanDigits : List UInt8 → List Nat × List UInt8
  | [] => ([], [])
  | byte :: rest =>
    match digitValue? byte with
    | some digit => (digit :: (spanDigits rest).1, (spanDigits rest).2)
    | none => ([], byte :: rest)

def takeSign : List UInt8 → Bool × List UInt8
  | 43 :: rest => (false, rest)
  | 45 :: rest => (true, rest)
  | text => (false, text)

/-- The prefix `0x` or `0X`, if there is one. -/
def dropBase : List UInt8 → List UInt8
  | 48 :: 120 :: rest => rest
  | 48 :: 88 :: rest => rest
  | text => text

/-- A scanned number: its sign and its digits, most significant first. -/
structure Scanned where
  negative : Bool
  digits : List Nat
deriving DecidableEq, Repr

/-- The conversion `%x`, with the text that follows the number. -/
def scanHex (text : List UInt8) : Option (Scanned × List UInt8) :=
  let signed := takeSign (text.dropWhile isSpace)
  let spanned := spanDigits (dropBase signed.2)
  if spanned.1 = [] then none else some (⟨signed.1, spanned.1⟩, spanned.2)

/-- What `scanf` stores in an object of `bits` bits: the result of `strtoul`, cut to its size. -/
def Scanned.word (scanned : Scanned) (bits : Nat) : Nat :=
  let magnitude := Nat.ofDigits 16 scanned.digits.reverse
  let wide := if 2 ^ 64 ≤ magnitude then 2 ^ 64 - 1
    else if scanned.negative then (2 ^ 64 - magnitude) % 2 ^ 64 else magnitude
  wide % 2 ^ bits

section RoundTrip

variable {text rest : List UInt8} {digits : List Nat} {width : Nat}

/-- What follows a number cannot be read as a part of it. -/
def EndsNumber (rest : List UInt8) : Prop :=
  ∀ byte tail, rest = byte :: tail → digitValue? byte = none ∧ byte ≠ 120 ∧ byte ≠ 88

theorem spanDigits_ends (ends : EndsNumber rest) : spanDigits rest = ([], rest) := by
  cases rest with
  | nil => rfl
  | cons byte tail => rw [spanDigits, (ends byte tail rfl).1]

theorem spanDigits_digits (small : ∀ digit ∈ digits, digit < 16) (ends : EndsNumber rest) :
    spanDigits (digits.map digitByte ++ rest) = (digits, rest) := by
  induction digits with
  | nil => exact spanDigits_ends ends
  | cons digit later ih =>
    rw [List.forall_mem_cons] at small
    rw [List.map_cons, List.cons_append, spanDigits, digitValue?_digitByte small.1, ih small.2]

theorem dropBase_keeps {byte : UInt8}
    (second : ∀ next tail, rest = next :: tail → next ≠ 120 ∧ next ≠ 88) :
    dropBase (byte :: rest) = byte :: rest := by
  unfold dropBase
  split
  · rename_i tail same
    cases same
    exact absurd rfl (second _ _ rfl).1
  · rename_i tail _ same
    cases same
    exact absurd rfl (second _ _ rfl).2
  · rfl

theorem digitByte_plain {digit : Nat} (small : digit < 16) :
    isSpace (digitByte digit) = false ∧ digitByte digit ≠ 43 ∧ digitByte digit ≠ 45 ∧
      digitByte digit ≠ 120 ∧ digitByte digit ≠ 88 := by
  have all : ∀ digit < 16, isSpace (digitByte digit) = false ∧ digitByte digit ≠ 43 ∧
      digitByte digit ≠ 45 ∧ digitByte digit ≠ 120 ∧ digitByte digit ≠ 88 := by decide
  exact all digit small

theorem scanHex_digits (nonempty : digits ≠ []) (small : ∀ digit ∈ digits, digit < 16)
    (ends : EndsNumber rest) :
    scanHex (digits.map digitByte ++ rest) = some (⟨false, digits⟩, rest) := by
  cases digits with
  | nil => exact absurd rfl nonempty
  | cons digit later =>
    have first := small digit List.mem_cons_self
    obtain ⟨noSpace, noPlus, noMinus, -⟩ := digitByte_plain first
    have signless : takeSign (digitByte digit :: (later.map digitByte ++ rest)) =
        (false, digitByte digit :: (later.map digitByte ++ rest)) := by
      unfold takeSign
      split
      · rename_i same
        exact absurd (List.cons.inj same).1 noPlus
      · rename_i same
        exact absurd (List.cons.inj same).1 noMinus
      · rfl
    have baseless : dropBase (digitByte digit :: (later.map digitByte ++ rest)) =
        digitByte digit :: (later.map digitByte ++ rest) := by
      apply dropBase_keeps
      intro next tail same
      cases later with
      | nil => exact (ends next tail same).2
      | cons second others =>
        have plain := digitByte_plain (small second (by simp))
        rw [List.map_cons, List.cons_append] at same
        rw [← (List.cons.inj same).1]
        exact plain.2.2.2
    have spanned := spanDigits_digits small ends
    rw [List.map_cons, List.cons_append] at spanned ⊢
    unfold scanHex
    rw [List.dropWhile_cons_of_neg (by simp [noSpace]), signless]
    dsimp only
    rw [baseless, spanned]
    simp

/-- A printed number is read back, and the scan stops where the number ends. -/
theorem scanHex_printHex (positive : 0 < width) (value : Nat) (ends : EndsNumber rest) :
    scanHex (printHex width value ++ rest) = some (⟨false, paddedDigits width value⟩, rest) := by
  refine scanHex_digits ?_ (fun digit => paddedDigits_lt) ends
  intro empty
  have length := congrArg List.length empty
  rw [paddedDigits, List.length_append, List.length_replicate, List.length_reverse,
    List.length_nil] at length
  omega

theorem word_paddedDigits {value bits : Nat} (small : bits ≤ 64) (fits : value < 2 ^ bits) :
    (⟨false, paddedDigits width value⟩ : Scanned).word bits = value := by
  have wide : value < 2 ^ 64 := lt_of_lt_of_le fits (Nat.pow_le_pow_right (by decide) small)
  unfold Scanned.word
  dsimp only
  rw [ofDigits_paddedDigits, if_neg (Nat.not_le.mpr wide), if_neg (by simp), Nat.mod_eq_of_lt fits]

end RoundTrip

end VhostUser.Lib.HexText
