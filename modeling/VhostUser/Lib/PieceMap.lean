import Mathlib.Data.List.Basic

/-!
Contract: address maps made of linear pieces.

A piece sends the addresses from `start` on to consecutive targets. A collection
of items that denote pieces maps whatever one of its pieces maps. Cutting a
piece at an address and joining two adjoining pieces say exactly what becomes of
the map.
-/

namespace VhostUser.Lib

structure Piece where
  start : Nat
  size : Nat
  target : Nat
deriving DecidableEq, Repr

namespace Piece

variable {piece left right : Piece} {limit addr value : Nat}

def stop (piece : Piece) : Nat := piece.start + piece.size

def Covers (piece : Piece) (addr : Nat) : Prop := piece.start ≤ addr ∧ addr < piece.stop

def Maps (piece : Piece) (addr value : Nat) : Prop :=
  piece.Covers addr ∧ value = piece.target + (addr - piece.start)

instance : Decidable (piece.Covers addr) :=
  inferInstanceAs (Decidable (piece.start ≤ addr ∧ addr < piece.stop))

instance : Decidable (piece.Maps addr value) :=
  inferInstanceAs (Decidable (piece.Covers addr ∧ value = piece.target + (addr - piece.start)))

def before (piece : Piece) (limit : Nat) : Piece := { piece with size := limit - piece.start }

def after (piece : Piece) (limit : Nat) : Piece :=
  ⟨limit, piece.stop - limit, piece.target + (limit - piece.start)⟩

theorem maps_before (inside : limit ≤ piece.stop) :
    (piece.before limit).Maps addr value ↔ piece.Maps addr value ∧ addr < limit := by
  simp only [Maps, Covers, before, stop] at inside ⊢
  constructor
  · rintro ⟨⟨low, high⟩, rfl⟩
    exact ⟨⟨⟨low, by omega⟩, rfl⟩, by omega⟩
  · rintro ⟨⟨⟨low, high⟩, rfl⟩, below⟩
    exact ⟨⟨low, by omega⟩, rfl⟩

theorem maps_after (inside : piece.start ≤ limit) :
    (piece.after limit).Maps addr value ↔ piece.Maps addr value ∧ limit ≤ addr := by
  simp only [Maps, Covers, after, stop]
  constructor
  · rintro ⟨⟨low, high⟩, rfl⟩
    exact ⟨⟨⟨by omega, by omega⟩, by omega⟩, low⟩
  · rintro ⟨⟨⟨low, high⟩, rfl⟩, above⟩
    exact ⟨⟨above, by omega⟩, by omega⟩

/-- `right` continues `left`, in addresses and in targets. -/
structure Adjoins (left right : Piece) : Prop where
  start : right.start = left.stop
  target : right.target = left.target + left.size

def join (left right : Piece) : Piece := { left with size := left.size + right.size }

theorem maps_join (adjoins : Adjoins left right) :
    (join left right).Maps addr value ↔ left.Maps addr value ∨ right.Maps addr value := by
  obtain ⟨start, target⟩ := adjoins
  simp only [Maps, Covers, join, stop] at start ⊢
  constructor
  · rintro ⟨⟨low, high⟩, rfl⟩
    by_cases first : addr < left.start + left.size
    · exact .inl ⟨⟨low, first⟩, rfl⟩
    · exact .inr ⟨⟨by omega, by omega⟩, by omega⟩
  · rintro (⟨⟨low, high⟩, rfl⟩ | ⟨⟨low, high⟩, rfl⟩)
    · exact ⟨⟨low, by omega⟩, rfl⟩
    · exact ⟨⟨by omega, by omega⟩, by omega⟩

end Piece

section Items

variable {α : Type*} {pieceOf : α → Piece} {items front back : List α} {item : α}
  {addr value : Nat}

def MapsTo (pieceOf : α → Piece) (items : List α) (addr value : Nat) : Prop :=
  ∃ item ∈ items, (pieceOf item).Maps addr value

@[simp] theorem mapsTo_nil : ¬ MapsTo pieceOf [] addr value := by
  simp [MapsTo]

@[simp] theorem mapsTo_cons : MapsTo pieceOf (item :: items) addr value ↔
    (pieceOf item).Maps addr value ∨ MapsTo pieceOf items addr value := by
  simp [MapsTo]

@[simp] theorem mapsTo_append : MapsTo pieceOf (front ++ back) addr value ↔
    MapsTo pieceOf front addr value ∨ MapsTo pieceOf back addr value := by
  simp [MapsTo, or_and_right, exists_or]

end Items

end VhostUser.Lib
