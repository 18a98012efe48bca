import Mathlib.Data.Nat.Digits.Lemmas
import VhostUser.Lib.Fallible

/-!
Contract: programs that read a byte stream, and streams that they read back.

`Reads decoder bytes value` says that the decoder takes exactly these bytes off the front of
any stream and returns the value. It composes along the binds of a decoder as the bytes
compose by concatenation, so a round trip is proved one field at a time.

A stream that is too short reads as zero bytes.
-/

namespace VhostUser.Lib

abbrev Decoder (ε : Type) := StateT (List UInt8) (Except ε)

namespace Decoder

variable {ε α β : Type} {decoder : Decoder ε α} {next : α → Decoder ε β} {result : β} {value : α}
  {bytes : List UInt8}

def Reads (decoder : Decoder ε α) (bytes : List UInt8) (value : α) : Prop :=
  ∀ rest, decoder.run (bytes ++ rest) = .ok (value, rest)

theorem Reads.pure (value : α) : Reads (Pure.pure value : Decoder ε α) [] value := fun _ => rfl

theorem Reads.bind {front back : List UInt8} (first : Reads decoder front value)
    (second : Reads (next value) back result) :
    Reads (decoder >>= next) (front ++ back) result := by
  intro rest
  rw [StateT.run_bind, List.append_assoc, first]
  exact second rest

theorem Reads.map (f : α → β) (reads : Reads decoder bytes value) :
    Reads (f <$> decoder) bytes (f value) := by
  intro rest
  rw [StateT.run_map, reads]
  rfl

theorem Reads.bind_nil (first : Reads decoder [] value) (second : Reads (next value) bytes result) :
    Reads (decoder >>= next) bytes result :=
  first.bind second

theorem Reads.bind_last (first : Reads decoder bytes value)
    (second : Reads (next value) [] result) : Reads (decoder >>= next) bytes result := by
  have both := first.bind second
  rwa [List.append_nil] at both

/-- Whatever the stream, what the decoder returns has the property. -/
def Always (decoder : Decoder ε α) (property : α → Prop) : Prop :=
  ∀ stream value rest, decoder.run stream = .ok (value, rest) → property value

theorem Always.pure {property : α → Prop} (holds : property value) :
    Always (Pure.pure value : Decoder ε α) property := by
  rintro stream _ rest ⟨⟩
  exact holds

theorem run_bind_ok {stream : List UInt8} {ended : β × List UInt8} :
    (decoder >>= next).run stream = .ok ended ↔
      ∃ value left, decoder.run stream = .ok (value, left) ∧ (next value).run left = .ok ended := by
  rw [StateT.run_bind]
  refine bind_ok_iff.trans ⟨?_, ?_⟩
  · rintro ⟨⟨value, left⟩, read, ran⟩
    exact ⟨value, left, read, ran⟩
  · rintro ⟨value, left, read, ran⟩
    exact ⟨(value, left), read, ran⟩

section

variable {middle : α → Prop} {property : β → Prop}

theorem Always.bind (first : Always decoder middle)
    (each : ∀ value, middle value → Always (next value) property) :
    Always (decoder >>= next) property := by
  intro stream result rest ran
  obtain ⟨value, left, read, ran⟩ := run_bind_ok.mp ran
  exact each value (first _ _ _ read) left result rest ran

theorem Always.skip (each : ∀ value, Always (next value) property) :
    Always (decoder >>= next) property :=
  .bind (fun _ _ _ _ => trivial) fun value (_ : True) => each value

end

def adaptError {δ : Type} (f : ε → δ) (decoder : Decoder ε α) : Decoder δ α := fun bytes =>
  (decoder bytes).mapError f

theorem Reads.adaptError {δ : Type} (reads : Reads decoder bytes value) (f : ε → δ) :
    Reads (decoder.adaptError f) bytes value := by
  intro rest
  have read := reads rest
  simp only [StateT.run, Decoder.adaptError] at read ⊢
  rw [read]
  rfl

def check (passes : Bool) (error : ε) : Decoder ε Unit :=
  if passes then Pure.pure () else throw error

theorem reads_check {passes : Bool} (passed : passes = true) (error : ε) :
    Reads (check passes error) [] () := by
  rw [check, if_pos passed]
  exact Reads.pure ()

/-! ### Scalars -/

def takeByte : Decoder ε UInt8 := fun bytes => .ok (bytes.headD 0, bytes.tail)

def getBE : Nat → Decoder ε Nat
  | 0 => Pure.pure 0
  | width + 1 => do
      let high ← takeByte
      let low ← getBE width
      return low + 256 ^ width * high.toNat

/-- The low `width` bytes of a value, the most significant first. -/
def putBE : Nat → Nat → List UInt8
  | 0, _ => []
  | width + 1, value => UInt8.ofNat (value / 256 ^ width) :: putBE width value

def takeBytes (count : Nat) : Decoder ε (List UInt8) := fun bytes =>
  .ok (bytes.take count, bytes.drop count)

theorem reads_takeByte (byte : UInt8) : Reads (takeByte : Decoder ε UInt8) [byte] byte :=
  fun _ => rfl

theorem reads_getBE (width value : Nat) :
    Reads (getBE width : Decoder ε Nat) (putBE width value) (value % 256 ^ width) := by
  induction width with
  | zero =>
    rw [pow_zero, Nat.mod_one]
    exact Reads.pure 0
  | succ width ih =>
    have total : value % 256 ^ (width + 1) =
        value % 256 ^ width + 256 ^ width * (UInt8.ofNat (value / 256 ^ width)).toNat := by
      rw [UInt8.toNat_ofNat', Nat.mod_pow_succ]
    have bytes : putBE (width + 1) value =
        [UInt8.ofNat (value / 256 ^ width)] ++ (putBE width value ++ []) := by
      rw [List.append_nil]
      rfl
    rw [total, bytes]
    exact (reads_takeByte _).bind (ih.bind (Reads.pure _))

theorem reads_takeBytes (data : List UInt8) :
    Reads (takeBytes data.length : Decoder ε (List UInt8)) data data := by
  intro rest
  simp [takeBytes, StateT.run]

def get16 : Decoder ε UInt16 := UInt16.ofNat <$> getBE 2
def get32 : Decoder ε UInt32 := UInt32.ofNat <$> getBE 4
def get64 : Decoder ε UInt64 := UInt64.ofNat <$> getBE 8

def put16 (value : UInt16) : List UInt8 := putBE 2 value.toNat
def put32 (value : UInt32) : List UInt8 := putBE 4 value.toNat
def put64 (value : UInt64) : List UInt8 := putBE 8 value.toNat

theorem reads_get16 (value : UInt16) : Reads (get16 : Decoder ε UInt16) (put16 value) value := by
  have small : value.toNat < 256 ^ 2 := value.toNat_lt
  have read := (@reads_getBE ε 2 value.toNat).map UInt16.ofNat
  rwa [Nat.mod_eq_of_lt small, UInt16.ofNat_toNat] at read

theorem reads_get32 (value : UInt32) : Reads (get32 : Decoder ε UInt32) (put32 value) value := by
  have small : value.toNat < 256 ^ 4 := value.toNat_lt
  have read := (@reads_getBE ε 4 value.toNat).map UInt32.ofNat
  rwa [Nat.mod_eq_of_lt small, UInt32.ofNat_toNat] at read

theorem reads_get64 (value : UInt64) : Reads (get64 : Decoder ε UInt64) (put64 value) value := by
  have small : value.toNat < 256 ^ 8 := value.toNat_lt
  have read := (@reads_getBE ε 8 value.toNat).map UInt64.ofNat
  rwa [Nat.mod_eq_of_lt small, UInt64.ofNat_toNat] at read

end Decoder

end VhostUser.Lib
