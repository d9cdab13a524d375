import ChipEight.Screen

/-!
# Sprites

A sprite is a list of bytes, one a row from top to bottom. The most significant bit of a byte is
the leftmost of eight pixels; only the bits that are set are drawn. Drawn at any coordinates, a
sprite that leaves the screen on one side comes in again on the other.
-/

namespace ChipEight.Sprite

/-- The columns of the set bits of a row, from left to right. -/
def columns (byte : UInt8) : List Nat :=
  (List.range 8).filter fun column => byte.toNat.testBit (7 - column)

/-- The cells that a sprite with the given rows turns over when its upper left corner is drawn at
the coordinates `x` and `y`, row by row and from left to right. -/
def cells (x y : Nat) (rows : List UInt8) : List Cell :=
  rows.zipIdx.flatMap fun (byte, row) =>
    (columns byte).map fun column => Cell.wrap (x + column) (y + row)

theorem mem_columns {byte : UInt8} {column : Nat} :
    column ∈ columns byte ↔ column < 8 ∧ byte.toNat.testBit (7 - column) = true := by
  simp [columns]

@[simp] theorem cells_nil (x y : Nat) : cells x y [] = [] := rfl

/-- A cell is drawn when it lies under a set bit of the sprite. -/
theorem mem_cells {x y : Nat} {rows : List UInt8} {c : Cell} :
    c ∈ cells x y rows ↔
      ∃ (row : Nat) (h : row < rows.length) (column : Nat),
        column ∈ columns rows[row] ∧ c = Cell.wrap (x + column) (y + row) := by
  simp only [cells, List.mem_flatMap, List.mem_map, Prod.exists, List.mem_zipIdx_iff_getElem?,
    List.getElem?_eq_some_iff]
  constructor
  · rintro ⟨byte, row, ⟨h, hbyte⟩, column, hcolumn, rfl⟩
    exact ⟨row, h, column, hbyte ▸ hcolumn, rfl⟩
  · rintro ⟨row, h, column, hcolumn, rfl⟩
    exact ⟨_, row, ⟨h, rfl⟩, column, hcolumn, rfl⟩

end ChipEight.Sprite
