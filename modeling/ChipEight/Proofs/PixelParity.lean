import ChipEight.Screen
import Mathlib.Algebra.Ring.Parity
import Mathlib.Data.Fintype.Fin
import Mathlib.Data.List.DropRight

/-!
# The screen as a parity of its toggles

Whoever uses a screen turns single pixels over, puts all of them out or shows them. A history is the
list of these uses, from the first one of a blank screen on. What a screen can be asked is read off
its history by counting: `ScreenUse.turns` is how often a pixel was turned over since all pixels
were put out last.

* A pixel is lit if it was turned over an odd number of times (`Screen.isLit_useAll`).
* The number of lit pixels is the number of the cells where that is so. It follows from
  `Screen.litCount_eq_card`, which counts the cells of any screen instead of its pixels in a row.
* Showing the screen is counted apart (`Screen.presented_useAll`).

`Screen.screen_summarizes_history` puts them together.
-/

namespace ChipEight

/-- Something that is done to a screen. -/
inductive ScreenUse where
  /-- The pixel at `cell` is turned over. -/
  | toggle (cell : Cell)
  /-- All pixels are put out. -/
  | clear
  /-- The screen is shown. -/
  | present
deriving DecidableEq, Repr

namespace ScreenUse

/-- How often the pixel at `c` was turned over since all pixels were put out last. -/
def turns (history : List ScreenUse) (c : Cell) : Nat :=
  (history.rtakeWhile (· ≠ .clear)).count (.toggle c)

variable (history : List ScreenUse) (c : Cell)

@[simp] theorem turns_nil : turns [] c = 0 := rfl

@[simp] theorem turns_concat_clear : turns (history ++ [.clear]) c = 0 := by
  rw [turns, List.rtakeWhile_concat_neg _ _ _ (by simp), List.count_nil]

theorem turns_concat {use : ScreenUse} (h : use ≠ .clear) :
    turns (history ++ [use]) c = turns history c + if use = .toggle c then 1 else 0 := by
  rw [turns, List.rtakeWhile_concat_pos _ _ _ (by simpa using h), List.count_append,
    List.count_singleton]
  simp only [beq_iff_eq]
  rfl

end ScreenUse

/-- The pixel in row `i / 64` and column `i % 64` is the one of number `i`. -/
theorem Cell.index_wrap (i : Fin Screen.area) : (wrap i.val (i.val / 64)).index = i := by
  have hi : i.val < 2048 := i.isLt
  ext
  simp only [index, x_wrap, y_wrap, Screen.width]
  omega

/-- The cells in the order of their pixels. -/
def Cell.equivIndex : Cell ≃ Fin Screen.area where
  toFun := index
  invFun i := wrap i.val (i.val / 64)
  left_inv c := index_injective (index_wrap c.index)
  right_inv := index_wrap

instance : Fintype Cell :=
  Fintype.ofEquiv (Fin Screen.area) Cell.equivIndex.symm

namespace Screen

open ScreenUse (turns)

/-! ### The number of lit pixels -/

/-- The lit pixels are as many as the cells where a pixel is lit. -/
theorem litCount_eq_card (s : Screen) :
    s.litCount = (Finset.univ.filter fun c => s.isLit c = true).card := by
  let pixels : List.Vector Bool area := ⟨s.pixels.toList, s.pixels.length_toList⟩
  calc s.litCount
      = pixels.toList.count true := Vector.count_toList.symm
    _ = (Finset.univ.filter fun i => pixels.get i = true).card :=
        (Fin.card_filter_univ_eq_vector_get_eq_count true pixels).symm
    _ = (Finset.univ.filter fun c => s.isLit c = true).card := by
        symm
        refine Finset.card_equiv Cell.equivIndex fun c => ?_
        simp only [Finset.mem_filter, Finset.mem_univ, true_and]
        exact Iff.rfl

/-- Turning a pixel over puts it out or lights it, and no other pixel. -/
theorem litCount_toggle (s : Screen) (c : Cell) :
    if s.isLit c then (s.toggle c).2.litCount + 1 = s.litCount
    else (s.toggle c).2.litCount = s.litCount + 1 := by
  have hpixel : s.pixels[c.index.val] = s.isLit c := rfl
  have hcount : (s.toggle c).2.litCount = (s.pixels.set c.index (!s.isLit c)).count true := rfl
  rw [hcount, Vector.count_set, hpixel]
  cases hlit : s.isLit c with
  | false => simp [litCount]
  | true =>
    -- the pixel that goes out was counted
    have hcounted : 0 < s.pixels.count true := by
      rw [Vector.count_pos_iff, ← hlit, ← hpixel]
      exact Vector.getElem_mem c.index.isLt
    simpa [litCount] using Nat.sub_add_cancel hcounted

/-! ### Histories -/

/-- The screen after something is done to it. -/
def use (s : Screen) : ScreenUse → Screen
  | .toggle cell => (s.toggle cell).2
  | .clear => s.clear
  | .present => s.present

/-- The screen after all uses of a history. -/
def useAll (s : Screen) (history : List ScreenUse) : Screen :=
  history.foldl use s

theorem useAll_concat (s : Screen) (history : List ScreenUse) (u : ScreenUse) :
    s.useAll (history ++ [u]) = (s.useAll history).use u :=
  List.foldl_append

/-- A pixel is lit when it was turned over an odd number of times since the screen was cleared. -/
theorem isLit_useAll (history : List ScreenUse) (c : Cell) :
    (blank.useAll history).isLit c = true ↔ Odd (turns history c) := by
  -- one use more: a toggle of `c` turns both sides over, a clear starts both anew
  induction history using List.reverseRecOn with
  | nil => simp [useAll]
  | append_singleton history u ih =>
    rw [useAll_concat]
    cases u with
    | toggle cell =>
      rw [ScreenUse.turns_concat history c (by simp), use, isLit_toggle]
      by_cases h : cell = c
      · -- one time more makes an odd number even and an even number odd
        simp [h, Nat.odd_add_one, ← ih]
      · simp [h, ih]
    | clear => simp [use]
    | present =>
      rw [ScreenUse.turns_concat history c (by simp)]
      simpa [use] using ih

theorem presented_useAll (history : List ScreenUse) :
    (blank.useAll history).presented = history.count .present := by
  induction history using List.reverseRecOn with
  | nil => rfl
  | append_singleton history u ih =>
    rw [useAll_concat, List.count_append, ← ih]
    cases u <;> rfl

/-- A screen says what its history says. A pixel is lit if it was turned over an odd number of times
since all pixels were put out last, and whoever turns it over next is told so. The number of lit
pixels is the number of such cells; it goes down by one when a lit pixel is turned over and up by
one when a dark pixel is. Showing the screen changes no pixel, and it was presented as often as it
was shown, whatever was put out meanwhile. -/
theorem screen_summarizes_history (history : List ScreenUse) :
    let screen := blank.useAll history
    (∀ c, screen.isLit c = true ↔ Odd (turns history c)) ∧
      (∀ c, (screen.toggle c).1 = true ↔ Odd (turns history c)) ∧
      screen.litCount = (Finset.univ.filter fun c => Odd (turns history c)).card ∧
      (∀ c, if (screen.toggle c).1 then (screen.toggle c).2.litCount + 1 = screen.litCount
        else (screen.toggle c).2.litCount = screen.litCount + 1) ∧
      (∀ c, screen.present.isLit c = screen.isLit c) ∧
      screen.presented = history.count .present := by
  intro screen
  have hlit : ∀ c, screen.isLit c = true ↔ Odd (turns history c) := isLit_useAll history
  refine ⟨hlit, hlit, ?_, litCount_toggle screen, isLit_present screen, presented_useAll history⟩
  -- the lit cells are the ones with an odd number, so there are equally many of them
  rw [litCount_eq_card]
  exact congrArg Finset.card (Finset.filter_congr fun c _ => hlit c)

end Screen

end ChipEight
