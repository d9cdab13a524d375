import ChipEight.Frontend
import ChipEight.Machine.Cycle
import ChipEight.Timestep

/-!
# Sessions

A session is a machine, a frontend and a virtual clock. It goes on frame by frame: a frame runs the
machine for the ticks that are due, shows the screen and lets the frontend handle its events.

* `Session.frame` is one frame.
* `Session.run` repeats frames until the frontend is closed or something fails.
-/

namespace ChipEight

/-- A machine with its frontend and its clock. -/
structure Session (σ : Type) where
  /-- The machine. -/
  machine : Machine
  /-- The frontend. -/
  frontend : σ
  /-- The clock. -/
  timestep : Timestep

namespace Session

variable {σ : Type}

/-- A session at `rate` ticks a second. -/
def ofRate (machine : Machine) (frontend : σ) (rate : Nat) : Except Fault (Session σ) :=
  match Timestep.ofRate rate with
  | .error fault => .error fault
  | .ok timestep => .ok { machine, frontend, timestep }

/-- How a frame ended. -/
inductive FrameEnd where
  /-- The frame was completed after this number of ticks. -/
  | completed (ticks : UInt32)
  /-- A cycle, showing the screen or handling the events failed, and the frame ended there. -/
  | failed (fault : Fault)
  /-- The clock could not take up the time that passed: its arithmetic overflowed, which breaks the
  session off before anything else happens. -/
  | clockOverflow
deriving DecidableEq, Repr

/-- What a frame leaves behind. -/
structure FrameReport (σ : Type) where
  /-- The session after the frame. -/
  session : Session σ
  /-- How the frame ended. -/
  outcome : FrameEnd
  /-- The lines logged, in order. -/
  log : Array LogLine

section
variable [Frontend σ]

/-- Shows the screen. The screen counts only the times that succeeded. -/
def present (s : Session σ) : Option Fault × Session σ :=
  match Frontend.present s.machine.screen s.frontend with
  | (some fault, frontend) => (some fault, { s with frontend })
  | (none, frontend) =>
    (none, { s with frontend, machine := { s.machine with screen := s.machine.screen.present } })

/-- Lets the frontend handle its events. -/
def pump (s : Session σ) : Option Fault × Session σ :=
  let pumped := Frontend.pump s.machine.keypad s.frontend
  (pumped.fault,
    { s with
      frontend := pumped.frontend
      machine := { s.machine with keypad := pumped.keypad } })

/-- Shows the screen and, if that succeeds, lets the frontend handle its events. -/
def refresh (s : Session σ) : Option Fault × Session σ :=
  match s.present with
  | (some fault, s) => (some fault, s)
  | (none, s) => s.pump

/-- One frame after `elapsed` has passed. The clock is charged for all ticks that are due, also if
one of their cycles fails. -/
def frame (s : Session σ) (elapsed : Duration) : FrameReport σ :=
  match s.timestep.advance? elapsed with
  | none => ⟨s, .clockOverflow, #[]⟩
  | some (ticks, timestep) =>
    let stretch := s.machine.cycles ticks.toNat
    let s := { s with machine := stretch.machine, timestep }
    match stretch.fault with
    | some fault => ⟨s, .failed fault, stretch.log⟩
    | none =>
      match s.refresh with
      | (some fault, s) => ⟨s, .failed fault, stretch.log⟩
      | (none, s) => ⟨s, .completed ticks, stretch.log⟩

/-! ### Running a session -/

/-- How a session ended. -/
inductive Ending where
  /-- The frontend was closed. -/
  | closed
  /-- A fault ended it. -/
  | aborted (fault : Fault)
  /-- The clock could not take up the time that passed, and the session broke off. Nothing is logged
  about that. -/
  | clockOverflow
deriving DecidableEq, Repr

/-- A session on its way. -/
structure Progress (σ : Type) where
  /-- The session so far. -/
  session : Session σ
  /-- The number of frames completed. -/
  frames : Nat
  /-- How the session ended, once it has. -/
  ending : Option Ending
  /-- The lines logged, in order. -/
  log : Array LogLine

namespace Progress

/-- A session that has just started. -/
def start (s : Session σ) : Progress σ :=
  { session := s, frames := 0, ending := none, log := #[.sessionStarted s.timestep.tick] }

/-- Goes on by one frame after `elapsed` has passed, or ends the session if the frontend is
closed. -/
def advance (p : Progress σ) (elapsed : Duration) : Progress σ :=
  if Frontend.isClosed p.session.frontend then
    { p with ending := some .closed, log := p.log.push .sessionClosed }
  else
    let report := p.session.frame elapsed
    let log := p.log ++ report.log
    match report.outcome with
    | .completed _ => { p with session := report.session, frames := p.frames + 1, log }
    | .failed fault =>
      { p with
        session := report.session
        ending := some (.aborted fault)
        log := log.push (.sessionAborted fault) }
    | .clockOverflow =>
      { p with session := report.session, ending := some .clockOverflow, log }

/-- Goes on by up to `n` frames, none after the end. The time before the frame number `k` of the
session is `clock k`. -/
def run (clock : Nat → Duration) : Nat → Progress σ → Progress σ
  | 0, p => p
  | n + 1, p => if p.ending.isSome then p else run clock n (p.advance (clock p.frames))

end Progress

/-- The first `n` frames of a session, or all of them if it ends before. -/
def run (s : Session σ) (clock : Nat → Duration) (n : Nat) : Progress σ :=
  Progress.run clock n (.start s)

end

end Session

end ChipEight
