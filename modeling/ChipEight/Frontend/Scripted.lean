import ChipEight.Frontend

/-!
# A scripted frontend

A frontend without a screen or keys of its own. It follows a script that says which keys are pressed
and released at which pump, when the session is closed, and when showing the screen or handling the
events fails.
-/

namespace ChipEight

/-- A script, and how far it was followed. -/
structure Scripted where
  /-- The events, each with the number of the pump at which it happens, counted from one. -/
  events : List (Nat × KeyEvent) := []
  /-- The number of pumps after which the session is closed. -/
  closeAfter : Option Nat := none
  /-- The number of the pump that fails, and the text of the fault. -/
  pumpFailure : Option (Nat × String) := none
  /-- The number of the presentation that fails, counted from one, and the text of the fault. -/
  presentFailure : Option (Nat × String) := none
  /-- How often events were pumped. -/
  pumps : Nat := 0
  /-- How often the screen was to be shown. -/
  presents : Nat := 0
deriving DecidableEq, Repr

namespace Scripted

/-- The fault of the attempt with the given number. -/
def failureAt (failure : Option (Nat × String)) (number : Nat) : Option Fault :=
  match failure with
  | some (failing, text) => if failing = number then some (.platform text) else none
  | none => none

instance : Frontend Scripted where
  isClosed s :=
    match s.closeAfter with
    | some limit => decide (limit ≤ s.pumps)
    | none => false
  present _ s :=
    let s := { s with presents := s.presents + 1 }
    (failureAt s.presentFailure s.presents, s)
  pump keypad s :=
    let s := { s with pumps := s.pumps + 1 }
    let due := s.events.filter fun event => event.1 = s.pumps
    { keypad := due.foldl (fun keypad event => keypad.handle event.2) keypad
      frontend := s
      fault := failureAt s.pumpFailure s.pumps }

end Scripted

end ChipEight
