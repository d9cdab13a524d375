import ChipEight.Duration
import ChipEight.Fault
import ChipEight.Instruction

/-!
# The log

What a machine and a session report while they run. A `LogLine` holds the facts; `LogLine.text`
puts them into words and `LogLine.level` says how important they are.
-/

namespace ChipEight

/-- The operands of an instruction in the shape in which its word holds them. -/
inductive Operands where
  /-- No operands. -/
  | none
  /-- One register. -/
  | register (x : Fin 16)
  /-- Two registers. -/
  | registers (x y : Fin 16)
  /-- A register and a byte. -/
  | registerByte (x : Fin 16) (byte : UInt8)
  /-- An address. -/
  | address (target : Fin 4096)
  /-- Two registers and a number of rows. -/
  | sprite (x y rows : Fin 16)
deriving DecidableEq, Repr

namespace Operands

/-- The shape and the operands, all in decimal. -/
def text : Operands → String
  | none => "None"
  | register x => s!"X({x.val})"
  | registers x y => s!"XY({x.val}, {y.val})"
  | registerByte x byte => s!"XNN({x.val}, {byte.toNat})"
  | address target => s!"NNN({target.val})"
  | sprite x y rows => s!"XYN({x.val}, {y.val}, {rows.val})"

end Operands

/-- The operands of a skip with this condition. -/
def Condition.operands : Condition → Operands
  | equalsByte x byte | differsByte x byte => .registerByte x byte
  | equals x y | differs x y => .registers x y
  | keyHeld x | keyFree x => .register x

/-- The operands of an instruction. -/
def Instruction.operands : Instruction → Operands
  | clear | ret => .none
  | jump target | call target | setIndex target | jumpOffset target => .address target
  | skipIf condition => condition.operands
  | setByte x byte | addByte x byte | random x byte => .registerByte x byte
  | alu _ x y => .registers x y
  | draw x y rows => .sprite x y rows
  | readDelay x | waitKey x | setDelay x | setSound x | addIndex x | pointAtDigit x
  | storeDecimal x | storeRegisters x | loadRegisters x => .register x

/-- How important a line of the log is. -/
inductive LogLevel where
  /-- A session ended by a fault. -/
  | error
  /-- A milestone of a session. -/
  | info
  /-- A pause or its end. -/
  | debug
  /-- One instruction. -/
  | trace
deriving DecidableEq, Repr

/-- The name of a level. -/
def LogLevel.name : LogLevel → String
  | error => "ERROR"
  | info => "INFO"
  | debug => "DEBUG"
  | trace => "TRACE"

/-- One line of the log. -/
inductive LogLine where
  /-- A program of `size` bytes was loaded at `address`. -/
  | loaded (size address : Nat)
  /-- The word at `address` was read as `instruction`, which is executed next. -/
  | executing (address word : UInt16) (instruction : Instruction)
  /-- The machine pauses until a key is pressed, whose number goes into register `x`. -/
  | waiting (x : Fin 16)
  /-- The press of `key` ended the pause; its number is in register `x`. -/
  | resumed (key x : Fin 16)
  /-- A session with this length of a tick starts. -/
  | sessionStarted (tick : Duration)
  /-- The user closed the session. -/
  | sessionClosed
  /-- A fault ended the session. -/
  | sessionAborted (fault : Fault)
deriving DecidableEq, Repr

namespace LogLine

/-- How important the line is. -/
def level : LogLine → LogLevel
  | loaded .. | sessionStarted .. | sessionClosed => .info
  | executing .. => .trace
  | waiting .. | resumed .. => .debug
  | sessionAborted .. => .error

/-- The wording of the line. -/
def text : LogLine → String
  | loaded size address =>
    s!"loaded {size} byte program at " ++ Hexadecimal.prefixed 3 address
  | executing address word instruction =>
    Fault.codeAddress address ++ ": " ++ Hexadecimal.padded 4 word.toNat ++ " "
      ++ instruction.operands.text
  | waiting x => "waiting for key into V" ++ Hexadecimal.padded 1 x
  | resumed key x =>
    "key " ++ Hexadecimal.padded 1 key ++ " pressed, resuming with V" ++ Hexadecimal.padded 1 x
  | sessionStarted tick => "session started, tick " ++ tick.text
  | sessionClosed => "session closed"
  | sessionAborted fault => "session aborted: " ++ fault.message

/-- The line as it is written out: the name of the level, then the wording. -/
def render (line : LogLine) : String :=
  line.level.name ++ " " ++ line.text

end LogLine

end ChipEight
