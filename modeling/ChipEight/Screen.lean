/-!
# The screen

A monochrome raster of 64 by 32 pixels. `Screen.toggle` is the only way to change a single pixel;
`Screen.clear` puts all of them out. The screen also counts how often it was presented to the user,
a count that no drawing operation touches.

Every operation is described through `Screen.isLit`.
-/

namespace ChipEight

/-- The number of columns. -/
abbrev Screen.width : Nat := 64

/-- The number of rows. -/
abbrev Screen.height : Nat := 32

/-- The number of pixels. -/
abbrev Screen.area : Nat := width * height

/-- The place of one pixel: column `x` from the left, row `y` from the top. -/
@[ext] structure Cell where
  /-- The column. -/
  x : Fin Screen.width
  /-- The row. -/
  y : Fin Screen.height
deriving DecidableEq, Repr

namespace Cell

theorem x_lt (c : Cell) : c.x.val < 64 := c.x.isLt

theorem y_lt (c : Cell) : c.y.val < 32 := c.y.isLt

theorem index_lt (c : Cell) : c.x.val + Screen.width * c.y.val < Screen.area := by
  have hx := c.x_lt
  have hy := c.y_lt
  dsimp only [Screen.width, Screen.height, Screen.area]
  omega

/-- The place of the pixel in a list of all pixels, row after row. -/
def index (c : Cell) : Fin Screen.area :=
  ⟨c.x.val + Screen.width * c.y.val, c.index_lt⟩

/-- The cell at the coordinates `x` and `y`, if they lie on the screen. -/
def at? (x y : Nat) : Option Cell :=
  if hx : x < Screen.width then
    if hy : y < Screen.height then some ⟨⟨x, hx⟩, ⟨y, hy⟩⟩ else none
  else none

/-- The cell at the coordinates `x` and `y` on a screen whose opposite edges are joined. -/
def wrap (x y : Nat) : Cell :=
  ⟨Fin.ofNat Screen.width x, Fin.ofNat Screen.height y⟩

theorem index_injective {c d : Cell} (h : c.index = d.index) : c = d := by
  have h : c.x.val + 64 * c.y.val = d.x.val + 64 * d.y.val := congrArg Fin.val h
  have hx := c.x_lt
  have hx' := d.x_lt
  ext <;> omega

theorem at?_eq_some_iff {x y : Nat} {c : Cell} : at? x y = some c ↔ x = c.x.val ∧ y = c.y.val := by
  unfold at?
  split
  · split
    · simp [Cell.ext_iff, Fin.ext_iff]
    · have := c.y.isLt
      simp; omega
  · have := c.x.isLt
    simp; omega

@[simp] theorem x_wrap (x y : Nat) : (wrap x y).x.val = x % 64 := rfl

@[simp] theorem y_wrap (x y : Nat) : (wrap x y).y.val = y % 32 := rfl

end Cell

/-- The pixels of the screen and the number of times they were shown. -/
structure Screen where
  /-- The pixels, row after row; `true` is lit. -/
  pixels : Vector Bool Screen.area
  /-- How many times the screen was presented. -/
  presented : Nat
deriving DecidableEq, Repr

namespace Screen

/-- A screen with no pixel lit that was never presented. -/
def blank : Screen := ⟨Vector.replicate area false, 0⟩

/-- The pixel at `c` is lit. -/
def isLit (s : Screen) (c : Cell) : Bool :=
  s.pixels[c.index]

/-- Puts all pixels out. -/
def clear (s : Screen) : Screen :=
  { s with pixels := Vector.replicate area false }

/-- Turns the pixel at `c` over, and tells whether it was lit before. -/
def toggle (s : Screen) (c : Cell) : Bool × Screen :=
  let wasLit := s.isLit c
  (wasLit, { s with pixels := s.pixels.set c.index (!wasLit) })

/-- Turns over the pixels at all `cells` in order, and tells whether one of them was lit when its
turn came. -/
def toggleAll (s : Screen) : List Cell → Bool × Screen
  | [] => (false, s)
  | c :: cells =>
    let (wasLit, s) := s.toggle c
    let (collision, s) := s.toggleAll cells
    (wasLit || collision, s)

/-- Records that the screen was shown to the user. -/
def present (s : Screen) : Screen :=
  { s with presented := s.presented + 1 }

/-- The number of lit pixels. -/
def litCount (s : Screen) : Nat :=
  s.pixels.count true

/-- The pixels of one row, from left to right. -/
def row (s : Screen) (y : Fin height) : List Bool :=
  (List.finRange width).map fun x => s.isLit ⟨x, y⟩

/-- All rows, from top to bottom. -/
def rows (s : Screen) : List (List Bool) :=
  (List.finRange height).map s.row

/-! ### What each operation does to the pixels and to the count -/

theorem pixels_getElem (s : Screen) {i : Nat} (h : i < area) :
    s.pixels[i] = s.isLit ⟨⟨i % width, Nat.mod_lt i (by decide)⟩,
      ⟨i / width, Nat.div_lt_of_lt_mul h⟩⟩ := by
  simp only [isLit, Cell.index, Fin.getElem_fin, Nat.mod_add_div]

@[ext] theorem ext_isLit {s s' : Screen} (lit : ∀ c, s.isLit c = s'.isLit c)
    (presented : s.presented = s'.presented) : s = s' := by
  obtain ⟨v, n⟩ := s
  obtain ⟨v', n'⟩ := s'
  obtain rfl : n = n' := presented
  rw [mk.injEq]
  refine ⟨?_, rfl⟩
  ext1 i hi
  exact (pixels_getElem ⟨v, n⟩ hi).trans ((lit _).trans (pixels_getElem ⟨v', n⟩ hi).symm)

@[simp] theorem isLit_blank (c : Cell) : blank.isLit c = false := by
  simp [isLit, blank]

@[simp] theorem presented_blank : blank.presented = 0 := rfl

@[simp] theorem isLit_clear (s : Screen) (c : Cell) : s.clear.isLit c = false := by
  simp [isLit, clear]

@[simp] theorem presented_clear (s : Screen) : s.clear.presented = s.presented := rfl

@[simp] theorem fst_toggle (s : Screen) (c : Cell) : (s.toggle c).1 = s.isLit c := rfl

theorem isLit_toggle (s : Screen) (c d : Cell) :
    (s.toggle c).2.isLit d = if c = d then !s.isLit d else s.isLit d := by
  by_cases h : c = d
  · subst h; simp [toggle, isLit]
  · have hi : c.index.val ≠ d.index.val := fun hi => h (Cell.index_injective (Fin.ext hi))
    simp [toggle, isLit, h, hi]

@[simp] theorem presented_toggle (s : Screen) (c : Cell) :
    (s.toggle c).2.presented = s.presented := rfl

@[simp] theorem toggleAll_nil (s : Screen) : s.toggleAll [] = (false, s) := rfl

theorem toggleAll_cons (s : Screen) (c : Cell) (cells : List Cell) :
    s.toggleAll (c :: cells) =
      (s.isLit c || ((s.toggle c).2.toggleAll cells).1, ((s.toggle c).2.toggleAll cells).2) := rfl

@[simp] theorem presented_toggleAll (s : Screen) (cells : List Cell) :
    (s.toggleAll cells).2.presented = s.presented := by
  induction cells generalizing s with
  | nil => rfl
  | cons c cells ih => simp [toggleAll_cons, ih]

/-- Each occurrence of a cell turns its pixel over, wherever it stands in the list. -/
theorem isLit_toggleAll (s : Screen) (cells : List Cell) (d : Cell) :
    (s.toggleAll cells).2.isLit d = (s.isLit d ^^ cells.count d % 2 == 1) := by
  induction cells generalizing s with
  | nil => simp
  | cons c cells ih =>
    rw [toggleAll_cons, ih, isLit_toggle, List.count_cons]
    by_cases h : c = d
    · subst h
      have : (cells.count c + 1) % 2 = 1 - cells.count c % 2 := by omega
      rcases Nat.mod_two_eq_zero_or_one (cells.count c) with hc | hc <;>
        cases s.isLit c <;> simp [this, hc]
    · simp [h]

@[simp] theorem isLit_present (s : Screen) (c : Cell) : s.present.isLit c = s.isLit c := rfl

@[simp] theorem presented_present (s : Screen) : s.present.presented = s.presented + 1 := rfl

end Screen

end ChipEight
