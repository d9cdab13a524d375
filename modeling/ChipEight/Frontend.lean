import ChipEight.Fault
import ChipEight.HexKeypad
import ChipEight.Screen

/-!
# Frontends

A frontend is what a session shows its screen on and gets its keys from. `Frontend` lists what a
session asks of it; each request may change the frontend, and two of them may fail. Windows, colours
and the events of a window system lie behind these requests, and nothing is said about them.
-/

namespace ChipEight

/-- The state of the keypad and of the frontend after the events of a frame were handled. -/
structure Pumped (σ : Type) where
  /-- The keypad with the presses and releases that happened. -/
  keypad : HexKeypad
  /-- The frontend. -/
  frontend : σ
  /-- Why handling the events failed, if it failed. The keypad keeps what came before. -/
  fault : Option Fault

/-- The frontends with states in `σ`. -/
class Frontend (σ : Type) where
  /-- The user asked to end the session. -/
  isClosed : σ → Bool
  /-- Shows the screen, which may fail. -/
  present : Screen → σ → Option Fault × σ
  /-- Passes the events that happened since the last time on to the keypad, which may fail. -/
  pump : HexKeypad → σ → Pumped σ

end ChipEight
