import ChipEight.Machine.Execute
import Mathlib.Data.List.Nodup

/-!
# What a sprite covers

`Machine.mask` is the set of the cells that the next drawing of a sprite covers, told from the bits
of the sprite and the coordinates and not by the way in which the sprite is drawn. A sprite is not
as large as the screen, so it never comes back to a cell where it was already
(`Sprite.nodup_cells`); drawing it turns over each pixel under the mask exactly once and no other
pixel (`Machine.isLit_draw`).
-/

namespace ChipEight

/-- A set of cells, given by the test for its members. -/
abbrev Mask := Cell → Bool

theorem Cell.eq_wrap_iff {c : Cell} {x y : Nat} :
    c = wrap x y ↔ c.x.val = x % 64 ∧ c.y.val = y % 32 := by
  rw [Cell.ext_iff, Fin.ext_iff, Fin.ext_iff, x_wrap, y_wrap]

namespace Sprite

theorem nodup_columns (byte : UInt8) : (columns byte).Nodup :=
  List.nodup_range.filter _

/-- Rows that are less than a screen apart do not meet. -/
theorem disjoint_rows {x y row row' : Nat} (hlt : row < row') (hrow' : row' < 32)
    (byte byte' : UInt8) :
    List.Disjoint ((columns byte).map fun column => Cell.wrap (x + column) (y + row))
      ((columns byte').map fun column => Cell.wrap (x + column) (y + row')) := by
  rw [List.disjoint_left]
  intro c hc hc'
  obtain ⟨column, -, rfl⟩ := List.mem_map.1 hc
  obtain ⟨column', -, hsame⟩ := List.mem_map.1 hc'
  have hy : (y + row) % 32 = (y + row') % 32 := (Cell.eq_wrap_iff.1 hsame.symm).2
  omega

/-- A sprite that is not higher than the screen covers no cell twice. -/
theorem nodup_cells (x y : Nat) {rows : List UInt8} (h : rows.length ≤ 32) :
    (cells x y rows).Nodup := by
  rw [cells, List.nodup_flatMap]
  constructor
  · -- eight columns in a row are less than a screen apart
    rintro ⟨byte, row⟩ -
    refine (nodup_columns byte).map_on ?_
    intro column hcolumn column' hcolumn' hsame
    have hlt := (mem_columns.1 hcolumn).1
    have hlt' := (mem_columns.1 hcolumn').1
    have hx : (x + column) % 64 = (x + column') % 64 := (Cell.eq_wrap_iff.1 hsame).1
    omega
  · rw [List.pairwise_iff_getElem]
    intro i j hi hj hij
    rw [List.length_zipIdx] at hj
    simp only [List.getElem_zipIdx, Nat.zero_add]
    exact disjoint_rows hij (by omega) _ _

end Sprite

namespace Machine

/-- The cells that the sprite of `rows` bytes at the index covers when it is drawn at the place in
the registers `x` and `y`: those under a set bit, where bit 7 is the leftmost of a row, and what
leaves the screen on one side comes in again on the other. -/
def mask (m : Machine) (x y : Fin 16) (rows : Nat) : Mask := fun c =>
  decide (∃ (row : Fin rows) (column : Fin 8),
    (m.memory.read (m.index.toNat + row)).toNat.testBit (7 - column) = true ∧
      c.x.val = ((m.v x).toNat + column) % 64 ∧ c.y.val = ((m.v y).toNat + row) % 32)

theorem mem_cells_iff_mask (m : Machine) (x y : Fin 16) (rows : Nat) (c : Cell) :
    c ∈ Sprite.cells (m.v x).toNat (m.v y).toNat (m.memory.slice m.index.toNat rows) ↔
      m.mask x y rows c = true := by
  simp only [Sprite.mem_cells, Sprite.mem_columns, Memory.length_slice, Memory.getElem_slice,
    Cell.eq_wrap_iff, mask, decide_eq_true_eq, exists_prop, Fin.exists_iff, and_assoc]

/-- Drawing a sprite turns over the pixels that it covers, each of them once. -/
theorem isLit_draw (m : Machine) (x y : Fin 16) {rows : Nat} (h : rows ≤ 32) (c : Cell) :
    (m.draw x y rows).screen.isLit c = (m.screen.isLit c ^^ m.mask x y rows c) := by
  have hnodup : (Sprite.cells (m.v x).toNat (m.v y).toNat
      (m.memory.slice m.index.toNat rows)).Nodup := by
    apply Sprite.nodup_cells
    rwa [Memory.length_slice]
  show (m.screen.toggleAll _).2.isLit c = _
  rw [Screen.isLit_toggleAll, hnodup.count]
  simp only [mem_cells_iff_mask]
  cases m.mask x y rows c <;> rfl

end Machine

end ChipEight
