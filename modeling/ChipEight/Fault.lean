import ChipEight.Hexadecimal

/-!
# Faults

What can go wrong while a machine is set up, loaded or run. A `Fault` holds the facts of the case;
`Fault.message` is the one place where they are put into words.
-/

namespace ChipEight

/-- The ways in which loading or running a program fails. -/
inductive Fault where
  /-- A program of `size` bytes was to be loaded where only `max` fit. -/
  | programTooLarge (size max : Nat)
  /-- The word `opcode`, fetched at `address`, encodes no instruction. -/
  | unknownOpcode (opcode address : UInt16)
  /-- The instruction at `address` returns, but no call is open. -/
  | stackUnderflow (address : UInt16)
  /-- The call at `address` would nest deeper than the `limit` set for the machine. -/
  | stackOverflow (address : UInt16) (limit : Nat)
  /-- An access reaches past the end of memory, up to `address`. -/
  | memoryOutOfBounds (address : Nat)
  /-- A setting has a value that cannot be used. -/
  | invalidConfig (reason : String)
  /-- The screen, the keyboard or the window system failed. -/
  | platform (text : String)
deriving DecidableEq, Repr

namespace Fault

/-- The address of an instruction as messages and traces write it: at least three digits. -/
def codeAddress (address : UInt16) : String :=
  Hexadecimal.prefixed 3 address.toNat

/-- The text shown to the user. Opcodes and memory addresses have at least four digits, addresses
of instructions at least three. -/
def message : Fault → String
  | programTooLarge size max =>
    s!"program is too large ({size} bytes), max size is {max} bytes"
  | unknownOpcode opcode address =>
    "unknown opcode " ++ Hexadecimal.prefixed 4 opcode.toNat ++ " at " ++ codeAddress address
  | stackUnderflow address =>
    "return with an empty call stack at " ++ codeAddress address
  | stackOverflow address limit =>
    s!"call stack exceeded {limit} levels at " ++ codeAddress address
  | memoryOutOfBounds address =>
    "memory access out of bounds at " ++ Hexadecimal.prefixed 4 address
  | invalidConfig reason => "invalid configuration: " ++ reason
  | platform text => "platform error: " ++ text

end Fault

end ChipEight
