import ChipEight.Proofs.Chronicle
import ChipEight.Proofs.Drawing

/-!
# Collisions of a sprite with the screen

While a sprite is drawn, the flag is found pixel by pixel, on a screen that changes on the way.
Since no cell is covered twice, each pixel still is as it was at the start when its turn comes. So
the flag tells whether the mask of the sprite meets a lit pixel of the screen from before, and both
the flag and the screen are the same in whatever order the cells are turned over
(`Machine.draw_is_exclusive_or`).
-/

namespace ChipEight

namespace Screen

/-- Where no cell comes twice, a collision is one with a pixel that was lit from the start. -/
theorem fst_toggleAll_of_nodup (s : Screen) {cells : List Cell} (h : cells.Nodup) :
    (s.toggleAll cells).1 = cells.any s.isLit := by
  induction cells generalizing s with
  | nil => rfl
  | cons c cells ih =>
    obtain ⟨hc, hcells⟩ := List.nodup_cons.1 h
    -- turning the first pixel over does not touch those behind it
    have hkept : ∀ d ∈ cells, (s.toggle c).2.isLit d = s.isLit d := by
      intro d hd
      have hne : c ≠ d := fun h => hc (h ▸ hd)
      rw [isLit_toggle, if_neg hne]
    have hrest : cells.any (s.toggle c).2.isLit = cells.any s.isLit := by
      rw [Bool.eq_iff_iff, List.any_eq_true, List.any_eq_true]
      exact exists_congr fun d => and_congr_right fun hd => by rw [hkept d hd]
    rw [toggleAll_cons, ih _ hcells, hrest, List.any_cons]

/-- Where no cell comes twice, the order does not matter. -/
theorem toggleAll_of_perm (s : Screen) {cells order : List Cell} (hnodup : cells.Nodup)
    (hperm : order.Perm cells) : s.toggleAll order = s.toggleAll cells := by
  refine Prod.ext ?_ (Screen.ext_isLit (fun c => ?_) ?_)
  · rw [fst_toggleAll_of_nodup s hnodup, fst_toggleAll_of_nodup s (hperm.nodup_iff.2 hnodup),
      hperm.any_eq]
  · rw [isLit_toggleAll, isLit_toggleAll, hperm.count_eq]
  · rw [presented_toggleAll, presented_toggleAll]

end Screen

namespace Machine

/-- The cells that the sprite of `rows` bytes at the index turns over, in the order in which it is
drawn at the place in the registers `x` and `y`. -/
def spriteCells (m : Machine) (x y : Fin 16) (rows : Nat) : List Cell :=
  Sprite.cells (m.v x).toNat (m.v y).toNat (m.memory.slice m.index.toNat rows)

/-- The mask of the sprite of `rows` bytes at the index covers a lit pixel. -/
def Collides (m : Machine) (x y : Fin 16) (rows : Nat) : Prop :=
  ∃ c, m.mask x y rows c = true ∧ m.screen.isLit c = true

section
variable {m : Machine} {x y : Fin 16} {rows : Nat}

theorem nodup_spriteCells (h : rows ≤ 32) : (m.spriteCells x y rows).Nodup := by
  apply Sprite.nodup_cells
  rwa [Memory.length_slice]

theorem any_spriteCells_iff :
    (m.spriteCells x y rows).any m.screen.isLit = true ↔ m.Collides x y rows := by
  simp only [List.any_eq_true, spriteCells, mem_cells_iff_mask, Collides]

instance (m : Machine) (x y : Fin 16) (rows : Nat) : Decidable (m.Collides x y rows) :=
  decidable_of_iff _ any_spriteCells_iff

/-- A sprite without a set bit collides with nothing. -/
theorem not_collides_of_blank (h : ∀ row < rows, m.memory.read (m.index.toNat + row) = 0) :
    ¬ m.Collides x y rows := by
  rintro ⟨c, hcovered, -⟩
  obtain ⟨row, column, hbit, -, -⟩ := of_decide_eq_true hcovered
  rw [h row row.isLt] at hbit
  simp at hbit

/-- What the toggles of a sprite report is whether it collides. -/
theorem fst_toggleAll_spriteCells (h : rows ≤ 32) :
    (m.screen.toggleAll (m.spriteCells x y rows)).1 = decide (m.Collides x y rows) := by
  rw [Screen.fst_toggleAll_of_nodup _ (nodup_spriteCells h), Bool.eq_iff_iff, any_spriteCells_iff,
    decide_eq_true_iff]

/-- Drawing leaves in the flag register whether the sprite collides. -/
theorem flag_draw (h : rows ≤ 32) :
    (m.draw x y rows).v Registers.flag = if m.Collides x y rows then 1 else 0 := by
  have hdraw : (m.draw x y rows).v Registers.flag =
      if (m.screen.toggleAll (m.spriteCells x y rows)).1 then 1 else 0 :=
    Registers.get_set_self m.registers Registers.flag _
  simp only [hdraw, fst_toggleAll_spriteCells h, decide_eq_true_iff]

end

/-! ### A cycle that draws -/

section
variable {m : Machine} {x y rows : Fin 16}

/-- A sprite inside memory is drawn. -/
theorem cycle_of_draw (hexec : m.Executes (.draw x y rows))
    (hinside : m.index.toNat + rows ≤ 4096) :
    m.cycle.fault = none ∧ m.cycle.machine = (m.fetched.draw x y rows).tickTimers :=
  cycle_of_not_refused hexec (if_pos (Memory.spans_iff.2 hinside))

/-- Each pixel under the sprite is turned over, and no other. -/
theorem isLit_cycle_of_draw (hexec : m.Executes (.draw x y rows))
    (hinside : m.index.toNat + rows ≤ 4096) (c : Cell) :
    m.cycle.machine.screen.isLit c = (m.screen.isLit c ^^ m.mask x y rows c) := by
  rw [(cycle_of_draw hexec hinside).2]
  exact isLit_draw m.fetched x y (by omega) c

end

/-- Drawing is exclusive or with the wrapped sprite. A cycle that draws a sprite inside memory turns
over exactly the pixels under its mask, as the registers and the memory were before, each of them
once. The flag register becomes 1 if one of these pixels was lit before and 0 if none was, as for a
blank sprite. Turning the pixels over in any other order gives the same flag and the same screen. -/
theorem draw_is_exclusive_or (m : Machine) (x y rows : Fin 16) (hexec : m.Executes (.draw x y rows))
    (hinside : m.index.toNat + rows ≤ 4096) :
    let m' := m.cycle.machine
    let cells := m.spriteCells x y rows
    m.cycle.fault = none ∧
      (∀ c, m'.screen.isLit c ≠ m.screen.isLit c ↔ m.mask x y rows c = true) ∧
      cells.Nodup ∧
      (m'.v Registers.flag = if m.Collides x y rows then 1 else 0) ∧
      ((∀ row < rows.val, m.memory.read (m.index.toNat + row) = 0) → m'.v Registers.flag = 0) ∧
      ∀ order, order.Perm cells →
        m.screen.toggleAll order = (decide (m.Collides x y rows), m'.screen) := by
  intro m' cells
  obtain ⟨hfault, hmachine⟩ := cycle_of_draw hexec hinside
  have hrows : rows.val ≤ 32 := by omega
  have hnodup : cells.Nodup := nodup_spriteCells hrows
  -- the fetch changes nothing that the sprite or the screen depends on
  have hflag : m'.v Registers.flag = if m.Collides x y rows then 1 else 0 := by
    rw [show m' = _ from hmachine]
    exact flag_draw (m := m.fetched) hrows
  refine ⟨hfault, fun c => ?_, hnodup, hflag, fun hblank => ?_, fun order horder => ?_⟩
  · rw [isLit_cycle_of_draw hexec hinside]
    cases m.mask x y rows c <;> simp
  · rw [hflag, if_neg (not_collides_of_blank hblank)]
  · have hscreen : m'.screen = (m.screen.toggleAll cells).2 := congrArg (·.screen) hmachine
    rw [Screen.toggleAll_of_perm m.screen hnodup horder, ← fst_toggleAll_spriteCells hrows, hscreen]

/-- The digit 0 is drawn over the lower right corner of the screen, at the column in the flag
register. Its second row meets a lit pixel on the other side of both edges: the pixel goes out, the
flag stays set through the rows that follow, and a pixel of the first row is turned on. -/
theorem draw_is_exclusive_or_corner :
    let program : List Instruction := [.setByte 15 62, .setByte 3 31, .draw 15 3 5]
    let m := (Machine.new {} (Vector.replicate 8 0)).after
      [.load (Instruction.assemble program), .toggle ⟨1, 0⟩, .cycle, .cycle]
    m.Executes (.draw 15 3 5) ∧ m.index.toNat + (5 : Fin 16) ≤ 4096 ∧ m.cycle.fault = none ∧
      m.cycle.machine.v Registers.flag = 1 ∧ m.cycle.machine.screen.isLit ⟨1, 0⟩ = false ∧
      m.cycle.machine.screen.isLit ⟨63, 31⟩ = true := by
  intro program m
  -- the run is evaluated once for all that has to be known of it
  obtain ⟨hexec, hinside, hcollides, hmet, hfirst, hlit, hunlit⟩ :
      m.instruction? = some (.draw 15 3 5) ∧ m.index.toNat + (5 : Fin 16) ≤ 4096 ∧
        m.Collides 15 3 5 ∧ m.mask 15 3 5 ⟨1, 0⟩ = true ∧ m.mask 15 3 5 ⟨63, 31⟩ = true ∧
        m.screen.isLit ⟨1, 0⟩ = true ∧ m.screen.isLit ⟨63, 31⟩ = false := by
    decide +kernel
  have hexec : m.Executes (.draw 15 3 5) := instruction?_eq_some_iff.1 hexec
  obtain ⟨hfault, hturned, -, hflag, -, -⟩ := draw_is_exclusive_or m 15 3 5 hexec hinside
  have hout := (hturned ⟨1, 0⟩).2 hmet
  have hon := (hturned ⟨63, 31⟩).2 hfirst
  rw [hlit, ne_eq, Bool.not_eq_true] at hout
  rw [hunlit, ne_eq, Bool.not_eq_false] at hon
  exact ⟨hexec, hinside, hfault, hflag.trans (if_pos hcollides), hout, hon⟩

end Machine

end ChipEight
