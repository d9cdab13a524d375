import ChipEight.Session

/-!
# How a frame goes

A frame stops at the first thing that fails: the clock, a cycle, showing the screen, or handling the
events. There is an equation for each of these places, and one for the frame in which nothing fails.

* `Session.FrameCase` lists the places, with what holds there and what the frame leaves behind.
* `Session.frameCase`: every frame is one of them.
-/

namespace ChipEight.Session

variable {σ : Type} [Frontend σ] {s : Session σ} {elapsed : Duration} {ticks : UInt32}
  {timestep : Timestep} {fault : Fault} {shown : σ}

/-! ### Showing the screen and handling the events -/

/-- If the screen cannot be shown, no events are handled. -/
theorem refresh_of_present_fault
    (hshown : Frontend.present s.machine.screen s.frontend = (some fault, shown)) :
    s.refresh = (some fault, { s with frontend := shown }) := by
  unfold refresh present
  rw [hshown]

/-- Once the screen was shown, the events are handled, and a failure does not take the screen
back. -/
theorem refresh_of_shown
    (hshown : Frontend.present s.machine.screen s.frontend = (none, shown)) :
    let pumped := Frontend.pump s.machine.keypad shown
    s.refresh = (pumped.fault,
      { s with
        frontend := pumped.frontend
        machine :=
          { s.machine with screen := s.machine.screen.present, keypad := pumped.keypad } }) := by
  unfold refresh present
  rw [hshown]
  rfl

/-! ### The places at which a frame ends -/

theorem frame_of_clockOverflow (hadvance : s.timestep.advance? elapsed = none) :
    s.frame elapsed = ⟨s, .clockOverflow, #[]⟩ := by
  unfold frame
  rw [hadvance]

/-- A cycle that fails ends the frame, and the clock is charged for the whole frame. -/
theorem frame_of_fault (hadvance : s.timestep.advance? elapsed = some (ticks, timestep))
    (hfault : (s.machine.cycles ticks.toNat).fault = some fault) :
    s.frame elapsed =
      ⟨{ s with machine := (s.machine.cycles ticks.toNat).machine, timestep },
        .failed fault, (s.machine.cycles ticks.toNat).log⟩ := by
  unfold frame
  rw [hadvance]
  dsimp only
  rw [hfault]

/-- If all cycles succeed, the frame ends as refreshing the session behind them does. -/
theorem frame_of_success (hadvance : s.timestep.advance? elapsed = some (ticks, timestep))
    (hsuccess : (s.machine.cycles ticks.toNat).fault = none) :
    let ran : Session σ := { s with machine := (s.machine.cycles ticks.toNat).machine, timestep }
    s.frame elapsed =
      ⟨ran.refresh.2, ran.refresh.1.elim (.completed ticks) .failed,
        (s.machine.cycles ticks.toNat).log⟩ := by
  intro ran
  unfold frame
  rw [hadvance]
  dsimp only
  rw [hsuccess]
  dsimp only
  rcases ran.refresh with ⟨_ | fault, refreshed⟩ <;> rfl

theorem frame_of_present_fault (hadvance : s.timestep.advance? elapsed = some (ticks, timestep))
    (hsuccess : (s.machine.cycles ticks.toNat).fault = none)
    (hshown : Frontend.present (s.machine.cycles ticks.toNat).machine.screen s.frontend =
      (some fault, shown)) :
    s.frame elapsed =
      ⟨⟨(s.machine.cycles ticks.toNat).machine, shown, timestep⟩, .failed fault,
        (s.machine.cycles ticks.toNat).log⟩ := by
  rw [frame_of_success hadvance hsuccess, refresh_of_present_fault hshown]
  rfl

theorem frame_of_shown (hadvance : s.timestep.advance? elapsed = some (ticks, timestep))
    (hsuccess : (s.machine.cycles ticks.toNat).fault = none)
    (hshown : Frontend.present (s.machine.cycles ticks.toNat).machine.screen s.frontend =
      (none, shown)) :
    let ran := (s.machine.cycles ticks.toNat).machine
    let pumped := Frontend.pump ran.keypad shown
    s.frame elapsed =
      ⟨⟨{ ran with screen := ran.screen.present, keypad := pumped.keypad }, pumped.frontend,
          timestep⟩,
        pumped.fault.elim (.completed ticks) .failed, (s.machine.cycles ticks.toNat).log⟩ := by
  rw [frame_of_success hadvance hsuccess, refresh_of_shown hshown]

/-- The ways in which a frame can go. -/
inductive FrameCase (s : Session σ) (elapsed : Duration) : Prop where
  /-- The clock cannot take up the time that passed, and nothing happens. -/
  | clockOverflow (hadvance : s.timestep.advance? elapsed = none)
      (hframe : s.frame elapsed = ⟨s, .clockOverflow, #[]⟩)
  /-- One of the cycles fails, and the frontend is asked for nothing. -/
  | cycle (ticks : UInt32) (timestep : Timestep) (fault : Fault)
      (hadvance : s.timestep.advance? elapsed = some (ticks, timestep))
      (hfault : (s.machine.cycles ticks.toNat).fault = some fault)
      (hframe : s.frame elapsed =
        ⟨{ s with machine := (s.machine.cycles ticks.toNat).machine, timestep },
          .failed fault, (s.machine.cycles ticks.toNat).log⟩)
  /-- The cycles succeed, but the screen cannot be shown. -/
  | present (ticks : UInt32) (timestep : Timestep) (fault : Fault) (shown : σ)
      (hadvance : s.timestep.advance? elapsed = some (ticks, timestep))
      (hsuccess : (s.machine.cycles ticks.toNat).fault = none)
      (hshown : Frontend.present (s.machine.cycles ticks.toNat).machine.screen s.frontend =
        (some fault, shown))
      (hframe : s.frame elapsed =
        ⟨⟨(s.machine.cycles ticks.toNat).machine, shown, timestep⟩, .failed fault,
          (s.machine.cycles ticks.toNat).log⟩)
  /-- The cycles succeed, the screen is shown and the events are handled, which may fail. -/
  | pump (ticks : UInt32) (timestep : Timestep) (shown : σ) (pumped : Pumped σ)
      (hadvance : s.timestep.advance? elapsed = some (ticks, timestep))
      (hsuccess : (s.machine.cycles ticks.toNat).fault = none)
      (hshown : Frontend.present (s.machine.cycles ticks.toNat).machine.screen s.frontend =
        (none, shown))
      (hpumped : Frontend.pump (s.machine.cycles ticks.toNat).machine.keypad shown = pumped)
      (hframe : s.frame elapsed =
        ⟨⟨{ (s.machine.cycles ticks.toNat).machine with
              screen := (s.machine.cycles ticks.toNat).machine.screen.present
              keypad := pumped.keypad },
            pumped.frontend, timestep⟩,
          pumped.fault.elim (.completed ticks) .failed, (s.machine.cycles ticks.toNat).log⟩)

theorem frameCase (s : Session σ) (elapsed : Duration) : FrameCase s elapsed := by
  cases hadvance : s.timestep.advance? elapsed with
  | none => exact .clockOverflow hadvance (frame_of_clockOverflow hadvance)
  | some due =>
    obtain ⟨ticks, timestep⟩ := due
    cases hstretch : (s.machine.cycles ticks.toNat).fault with
    | some fault =>
      exact .cycle ticks timestep fault hadvance hstretch (frame_of_fault hadvance hstretch)
    | none =>
      rcases hshown : Frontend.present (s.machine.cycles ticks.toNat).machine.screen s.frontend
        with ⟨_ | fault, shown⟩
      · exact .pump ticks timestep shown _ hadvance hstretch hshown rfl
          (frame_of_shown hadvance hstretch hshown)
      · exact .present ticks timestep fault shown hadvance hstretch hshown
          (frame_of_present_fault hadvance hstretch hshown)

end ChipEight.Session
