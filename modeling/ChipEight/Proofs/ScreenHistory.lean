import ChipEight.Proofs.Chronicle
import ChipEight.Proofs.Drawing
import Mathlib.Algebra.Ring.Parity
import Mathlib.Data.List.DropRight

/-!
# The screen as a summary of its history

As long as nobody but the program uses it, the screen is the exclusive or of everything that was
drawn since it was cleared last. `Machine.masksDrawn` reads the masks off the chronicle of a run: of
each sprite that was drawn with success, with the registers, the index and the memory of that
moment. A pixel is lit if it lies under an odd number of them
(`screen_is_exclusive_or_of_masks`), so the order in which they were drawn does not matter.
-/

namespace ChipEight

/-- The screen shows the exclusive or of the masks, and was never presented. -/
structure Screen.Shows (s : Screen) (masks : List Mask) : Prop where
  /-- A pixel is lit if an odd number of masks covers it. -/
  lit : ∀ c, s.isLit c = decide (Odd (masks.countP fun mask => mask c))
  presented : s.presented = 0

namespace Screen

variable {s s' : Screen} {masks masks' : List Mask}

theorem shows_blank : blank.Shows [] where
  lit c := by simp
  presented := presented_blank

/-- Clearing the screen forgets all masks. -/
theorem Shows.clear (h : s.Shows masks) : s.clear.Shows [] where
  lit c := by simp
  presented := h.presented

/-- One mask more turns over the pixels under it. -/
theorem Shows.concat {mask : Mask} (h : s.Shows masks)
    (hlit : ∀ c, s'.isLit c = (s.isLit c ^^ mask c)) (hpresented : s'.presented = s.presented) :
    s'.Shows (masks ++ [mask]) where
  lit c := by
    rw [hlit, h.lit, List.countP_append, List.countP_singleton]
    cases mask c with
    | true => simp [Nat.odd_add_one, -Nat.not_odd_iff_even]
    | false => simp
  presented := hpresented.trans h.presented

/-- What a screen shows depends on how often each mask was drawn, not on the order. -/
theorem Shows.eq_of_perm (h : s.Shows masks) (h' : s'.Shows masks') (hperm : masks.Perm masks') :
    s = s' := by
  ext c
  · rw [h.lit, h'.lit, hperm.countP_eq]
  · rw [h.presented, h'.presented]

end Screen

namespace Machine

/-- The mask of the sprite that the next cycle draws, if it draws one. -/
def mask? (m : Machine) : Option Mask :=
  match m.instruction? with
  | some (.draw x y rows) => some (m.mask x y rows)
  | _ => none

/-- The masks of the sprites that were drawn since the screen was cleared last, in order. -/
def masksDrawn (past : List Machine) : List Mask :=
  (past.rtakeWhile fun s => s.instruction? ≠ some .clear).filterMap mask?

variable {s : Machine} {past : List Machine}

theorem masksDrawn_concat_clear (h : s.instruction? = some .clear) :
    masksDrawn (past ++ [s]) = [] := by
  rw [masksDrawn, List.rtakeWhile_concat_neg _ _ _ (by simp [h]), List.filterMap_nil]

theorem masksDrawn_concat (h : s.instruction? ≠ some .clear) :
    masksDrawn (past ++ [s]) = masksDrawn past ++ s.mask?.toList := by
  rw [masksDrawn, List.rtakeWhile_concat_pos _ _ _ (by simp [h]), List.filterMap_append]
  cases hmask : s.mask? <;> simp [masksDrawn, hmask]

/-- What a cycle that succeeds can do to the screen. -/
inductive ScreenCase (m : Machine) : Prop where
  /-- The screen is cleared. -/
  | cleared (hclear : m.instruction? = some .clear)
      (hscreen : m.cycle.machine.screen = m.screen.clear)
  /-- A sprite is drawn. -/
  | drawn (mask : Mask) (hclear : m.instruction? ≠ some .clear) (hmask : m.mask? = some mask)
      (hlit : ∀ c, m.cycle.machine.screen.isLit c = (m.screen.isLit c ^^ mask c))
      (hpresented : m.cycle.machine.screen.presented = m.screen.presented)
  /-- The screen stays as it is. -/
  | kept (hclear : m.instruction? ≠ some .clear) (hmask : m.mask? = none)
      (hscreen : m.cycle.machine.screen = m.screen)

/-- Of all instructions only two touch the screen, and a machine that waits leaves it alone. -/
theorem screenCase (hsuccess : s.cycle.fault = none) : ScreenCase s := by
  cases successCase hsuccess with
  | paused x hnone hcycle =>
    refine .kept (by simp [hnone]) (by rw [mask?, hnone]) ?_
    rw [hcycle]
    exact (pauseFootprint_awaitKey s x).2.screen
  | executed i hsome _ hmachine =>
    have hscreen : s.cycle.machine.screen = (s.fetched.effect i).screen :=
      congrArg (·.screen) hmachine
    cases i with
    | clear => exact .cleared hsome hscreen
    | draw x y rows =>
      refine .drawn (s.mask x y rows) (by simp [hsome]) (by rw [mask?, hsome]) (fun c => ?_) ?_
      · -- the fetch changes nothing that the sprite depends on
        rw [hscreen]
        exact isLit_draw s.fetched x y (by omega) c
      · rw [hscreen]
        exact presented_effect s.fetched _
    | _ =>
      refine .kept (by simp [hsome]) (by rw [mask?, hsome]) ?_
      rw [hscreen]
      exact Screen.ext_isLit (isLit_effect id) (presented_effect s.fetched _)

/-- A cycle that succeeds keeps the screen in step with the chronicle. -/
theorem shows_cycle (h : s.screen.Shows (masksDrawn past)) (hsuccess : s.cycle.fault = none) :
    s.cycle.machine.screen.Shows (masksDrawn (past ++ [s])) := by
  cases screenCase hsuccess with
  | cleared hclear hscreen =>
    rw [masksDrawn_concat_clear hclear, hscreen]
    exact h.clear
  | drawn mask hclear hmask hlit hpresented =>
    rw [masksDrawn_concat hclear, hmask]
    exact h.concat hlit hpresented
  | kept hclear hmask hscreen =>
    rw [masksDrawn_concat hclear, hmask, hscreen, Option.toList_none, List.append_nil]
    exact h

/-- Along every run that leaves the drawing to the program, the screen shows what was drawn. -/
theorem shows_after (config : Config) (entropy : Vector UInt32 8) {actions : List Action}
    (hactions : ∀ action ∈ actions, ¬ action.UsesScreen) :
    let m := Machine.new config entropy
    (m.after actions).screen.Shows (masksDrawn (m.successes actions)) := by
  intro m
  refine successes_induction (P := fun s past => s.screen.Shows (masksDrawn past))
    Screen.shows_blank (fun s past h hsuccess => shows_cycle h hsuccess) ?_
  intro s past action haction h hidle
  rw [(idle_of_not_succeeds hidle).screen (hactions action haction)]
  exact h

/-- A pixel is lit if and only if an odd number of the sprites drawn since the screen was cleared
last covers it. Two runs that have drawn the same masks as often, in whatever order, have the same
screen. -/
theorem screen_is_exclusive_or_of_masks (config : Config) (entropy : Vector UInt32 8)
    (actions : List Action) (hactions : ∀ action ∈ actions, ¬ action.UsesScreen) :
    let m := Machine.new config entropy
    let masks := masksDrawn (m.successes actions)
    (∀ c, (m.after actions).screen.isLit c = true ↔ Odd (masks.countP fun mask => mask c)) ∧
      ∀ (config' : Config) (entropy' : Vector UInt32 8) (actions' : List Action),
        (∀ action ∈ actions', ¬ action.UsesScreen) →
          let m' := Machine.new config' entropy'
          (masksDrawn (m'.successes actions')).Perm masks →
            (m'.after actions').screen = (m.after actions).screen := by
  intro m masks
  have hshows := shows_after config entropy hactions
  refine ⟨fun c => ?_, ?_⟩
  · rw [hshows.lit c, decide_eq_true_eq]
  · intro config' entropy' actions' hactions' m' hperm
    exact (shows_after config' entropy' hactions').eq_of_perm hshows hperm

/-- The digit 0 is drawn, cleared away and drawn twice more, the second time two columns further
right: the masks overlap in the column 2. -/
theorem screen_is_exclusive_or_of_masks_overlap :
    let m := Machine.new {} (Vector.replicate 8 0)
    let program : List Instruction :=
      [.draw 0 1 5, .clear, .draw 0 1 5, .setByte 0 2, .draw 0 1 5]
    let actions : List Action :=
      [.load (Instruction.assemble program), .cycle, .cycle, .key (.press 3), .cycle, .cycle,
        .cycle]
    (∀ action ∈ actions, ¬ action.UsesScreen) ∧ (masksDrawn (m.successes actions)).length = 2 ∧
      (m.after actions).screen.isLit ⟨0, 0⟩ = true ∧
      (m.after actions).screen.isLit ⟨2, 0⟩ = false := by
  intro m program actions
  have hactions : ∀ action ∈ actions, ¬ action.UsesScreen := by simp [actions, Action.UsesScreen]
  -- the run is evaluated once for the masks and what they cover
  obtain ⟨hlength, honce, htwice⟩ :
      (masksDrawn (m.successes actions)).length = 2 ∧
        Odd ((masksDrawn (m.successes actions)).countP fun mask => mask ⟨0, 0⟩) ∧
        ¬ Odd ((masksDrawn (m.successes actions)).countP fun mask => mask ⟨2, 0⟩) := by
    decide +kernel
  obtain ⟨hlit, -⟩ := screen_is_exclusive_or_of_masks {} (Vector.replicate 8 0) actions hactions
  refine ⟨hactions, hlength, (hlit _).2 honce, ?_⟩
  exact Bool.eq_false_iff.2 fun h => htwice ((hlit _).1 h)

end Machine

end ChipEight
