import Mathlib.Algebra.Order.Ring.Nat
import Mathlib.Tactic.Ring

/-!
Contract: little-endian scalars inside a byte image.

A packed C structure, together with whatever unions it contains, is modelled
by the bytes it occupies. Fields are read and written at their byte offsets,
so that reading a union through another member than the one it was written
through needs no special treatment.

Owns:
- reading and writing a scalar of a given width at a given offset;
- the frame laws between overlapping-free fields;
- partially received images, where a prefix is known and the rest is stale;
- named fields, and images assembled by a list of field writes.
-/

namespace VhostUser.Lib

/-- The bytes of a structure, by offset. Bytes past its end are never read. -/
abbrev ByteImage := Nat → UInt8

namespace ByteImage

/-- The little-endian scalar of `width` bytes at `offset`. -/
def getLE (image : ByteImage) (offset : Nat) : Nat → Nat
  | 0 => 0
  | width + 1 => (image offset).toNat + 256 * getLE image (offset + 1) width

/-- Store the low `width` bytes of `value` at `offset`. -/
def putLE (image : ByteImage) (offset width value : Nat) : ByteImage := fun index =>
  if offset ≤ index ∧ index < offset + width then
    UInt8.ofNat (value / 256 ^ (index - offset))
  else image index

def slice (image : ByteImage) (offset count : Nat) : List UInt8 :=
  (List.range count).map fun index => image (offset + index)

def overlay (data : List UInt8) (stale : ByteImage) : ByteImage := fun index =>
  data.getD index (stale index)

theorem getLE_lt (image : ByteImage) (offset width : Nat) :
    getLE image offset width < 256 ^ width := by
  induction width generalizing offset with
  | zero => simp [getLE]
  | succ width ih =>
    have tailLt := ih (offset + 1)
    have headLt : (image offset).toNat < 256 := UInt8.toNat_lt (image offset)
    simp only [getLE, pow_succ]
    omega

variable {offset width count index value : Nat} {data : List UInt8}

theorem getLE_congr {left right : ByteImage}
    (same : ∀ index, offset ≤ index → index < offset + width → left index = right index) :
    getLE left offset width = getLE right offset width := by
  induction width generalizing offset with
  | zero => rfl
  | succ width ih =>
    have headSame := same offset (by omega) (by omega)
    have tailSame : getLE left (offset + 1) width = getLE right (offset + 1) width :=
      ih fun index lower upper => same index (by omega) (by omega)
    simp only [getLE, headSame, tailSame]

theorem getLE_add (image : ByteImage) (offset low high : Nat) :
    getLE image offset (low + high) =
      getLE image offset low + 256 ^ low * getLE image (offset + low) high := by
  induction low generalizing offset with
  | zero => simp [getLE]
  | succ low ih =>
    have tail := ih (offset + 1)
    rw [show low + 1 + high = (low + high) + 1 by omega]
    simp only [getLE, tail, show offset + 1 + low = offset + (low + 1) by omega]
    ring

theorem getLE_putLE_disjoint (image : ByteImage) {other : Nat}
    (disjoint : other + count ≤ offset ∨ offset + width ≤ other) :
    getLE (putLE image offset width value) other count = getLE image other count := by
  apply getLE_congr
  intro index lower upper
  unfold putLE
  rw [if_neg (by omega)]

theorem getLE_putLE_same (image : ByteImage) (offset width value : Nat) :
    getLE (putLE image offset width value) offset width = value % 256 ^ width := by
  induction width generalizing offset value with
  | zero => simp [getLE, Nat.mod_one]
  | succ width ih =>
    have headByte : putLE image offset (width + 1) value offset = UInt8.ofNat value := by
      simp [putLE]
    have tailSame :
        getLE (putLE image offset (width + 1) value) (offset + 1) width =
          getLE (putLE image (offset + 1) width (value / 256)) (offset + 1) width := by
      apply getLE_congr
      intro index lower upper
      unfold putLE
      rw [if_pos (by omega), if_pos (by omega)]
      have shift : index - offset = (index - (offset + 1)) + 1 := by omega
      rw [shift, pow_succ, mul_comm, Nat.div_div_eq_div_mul]
    simp only [getLE, headByte, tailSame, ih]
    rw [pow_succ, mul_comm (256 ^ width), Nat.mod_mul]
    simp

@[simp] theorem slice_length (image : ByteImage) (offset count : Nat) :
    (slice image offset count).length = count := by
  simp [slice]

theorem slice_getElem (image : ByteImage) (offset count index : Nat)
    (below : index < (slice image offset count).length) :
    (slice image offset count)[index] = image (offset + index) := by
  simp [slice]

theorem overlay_below (stale : ByteImage) (below : index < data.length) :
    overlay data stale index = data[index] := by
  simp [overlay, List.getD, below]

theorem overlay_above (stale : ByteImage) (above : data.length ≤ index) :
    overlay data stale index = stale index := by
  simp [overlay, List.getD, above]

theorem slice_overlay (data : List UInt8) (stale : ByteImage) :
    slice (overlay data stale) 0 data.length = data := by
  apply List.ext_getElem
  · simp
  · intro index leftBelow rightBelow
    rw [slice_getElem, Nat.zero_add, overlay_below stale rightBelow]

theorem overlay_slice (image stale : ByteImage) (inside : index < count) :
    overlay (slice image 0 count) stale index = image index := by
  rw [overlay_below _ (by rwa [slice_length]), slice_getElem, Nat.zero_add]

theorem slice_received (image stale : ByteImage) (covered : offset + width ≤ count) :
    slice (overlay (slice image 0 count) stale) offset width = slice image offset width := by
  refine List.map_congr_left fun index inside => overlay_slice image stale ?_
  rw [List.mem_range] at inside
  omega

/-! ### Fields -/

structure ByteField where
  offset : Nat
  width : Nat
deriving DecidableEq, Repr

namespace ByteField

def get (field : ByteField) (image : ByteImage) : Nat :=
  getLE image field.offset field.width

def put (field : ByteField) (value : Nat) (image : ByteImage) : ByteImage :=
  putLE image field.offset field.width value

def Apart (left right : ByteField) : Prop :=
  left.offset + left.width ≤ right.offset ∨ right.offset + right.width ≤ left.offset

instance (left right : ByteField) : Decidable (Apart left right) :=
  inferInstanceAs (Decidable (_ ∨ _))

theorem get_lt (field : ByteField) (image : ByteImage) : field.get image < 256 ^ field.width :=
  getLE_lt image field.offset field.width

theorem get_put_same (field : ByteField) {value : Nat} (image : ByteImage)
    (fits : value < 256 ^ field.width) : field.get (field.put value image) = value := by
  unfold get put
  rw [getLE_putLE_same, Nat.mod_eq_of_lt fits]

theorem get_put_apart {field other : ByteField} (value : Nat) (image : ByteImage)
    (apart : Apart field other) : field.get (other.put value image) = field.get image :=
  getLE_putLE_disjoint image apart

/-- A received field is the sent one when the received front covers it. -/
theorem get_received (field : ByteField) (image stale : ByteImage) {count : Nat}
    (covered : field.offset + field.width ≤ count) :
    field.get (overlay (slice image 0 count) stale) = field.get image := by
  apply getLE_congr
  intro index lower upper
  exact overlay_slice image stale (by omega)

end ByteField

def assemble : List (ByteField × Nat) → ByteImage → ByteImage
  | [], image => image
  | (field, value) :: rest, image => assemble rest (field.put value image)

variable {field : ByteField} {writes : List (ByteField × Nat)}

theorem get_assemble_apart (image : ByteImage) (apart : ∀ write ∈ writes, field.Apart write.1) :
    field.get (assemble writes image) = field.get image := by
  induction writes generalizing image with
  | nil => rfl
  | cons write rest ih =>
    simp only [List.forall_mem_cons] at apart
    simp only [assemble]
    rw [ih _ apart.2, ByteField.get_put_apart _ _ apart.1]

/-- Among writes to separate fields each one is read back. -/
theorem get_assemble_mem (image : ByteImage)
    (apart : (writes.map Prod.fst).Pairwise ByteField.Apart) (member : (field, value) ∈ writes)
    (fits : value < 256 ^ field.width) : field.get (assemble writes image) = value := by
  induction writes generalizing image with
  | nil => simp at member
  | cons write rest ih =>
    rw [List.map_cons, List.pairwise_cons, List.forall_mem_map] at apart
    rcases List.mem_cons.mp member with rfl | later
    · simp only [assemble]
      rw [get_assemble_apart _ apart.1, ByteField.get_put_same _ _ fits]
    · exact ih _ apart.2 later

end ByteImage

end VhostUser.Lib
