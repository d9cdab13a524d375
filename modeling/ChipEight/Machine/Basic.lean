import ChipEight.ByteStream
import ChipEight.Font
import ChipEight.HexKeypad
import ChipEight.Log
import ChipEight.Memory
import ChipEight.Registers
import ChipEight.Screen

/-!
# The machine

The state of a machine with everything it is wired to: memory, registers, call stack, timers,
screen, keypad and the source of random bytes. This file holds the state, the new machine and the
loading of programs. What instructions do is in `ChipEight.Machine.Execute`, and how they follow one
another in `ChipEight.Machine.Cycle`.
-/

namespace ChipEight

namespace Machine

/-- The choices that are fixed when a machine is made. -/
structure Config where
  /-- The deepest that calls may nest; without it there is no limit. -/
  stackLimit : Option Nat := none
  /-- A left shift leaves 1, not `0x80`, in the flag register when the shifted-out bit is set. -/
  normalizeShiftFlag : Bool := false
  /-- The seed of the random bytes; without it they come from outside. -/
  seed : Option UInt64 := none
deriving DecidableEq, Repr

/-- The call depth of the classic interpreters. It is no limit here: calls nest as deep as
`Config.stackLimit` allows. -/
def classicStackDepth : Nat := 16

end Machine

/-- The state of a machine. -/
structure Machine where
  /-- The choices fixed from the start. -/
  config : Machine.Config
  /-- The memory, which holds the program, its data and the font. -/
  memory : Memory
  /-- The general registers. -/
  registers : Registers
  /-- The address of the next instruction. -/
  pc : UInt16
  /-- The address of the instruction fetched last. -/
  fetchedAt : UInt16
  /-- The index register, which points at sprites and data. -/
  index : UInt16
  /-- The return addresses of the open calls, the latest first. -/
  stack : List UInt16
  /-- The delay timer. -/
  delay : UInt8
  /-- The sound timer. A tone sounds while it is not zero. -/
  sound : UInt8
  /-- The register that waits for the number of a key, while the machine is paused for it. -/
  waiting : Option (Fin 16)
  /-- The screen. -/
  screen : Screen
  /-- The keypad. -/
  keypad : HexKeypad
  /-- The random bytes still to come. -/
  random : ByteStream
deriving DecidableEq, Repr

namespace Machine

/-- What an operation leaves behind: the machine, the fault if it failed, and the lines that it
logged. -/
structure Report where
  /-- The machine after the operation. -/
  machine : Machine
  /-- Why the operation failed, if it failed. -/
  fault : Option Fault
  /-- The lines logged, in order. -/
  log : List LogLine
deriving DecidableEq, Repr

/-- The memory of a new machine: the font and otherwise zeros. -/
def bootMemory : Memory :=
  Memory.zeroed.write Font.entry Font.sprites

/-- A new machine with a blank screen, an idle keypad and no program. The key `entropy` determines
the random bytes if the configuration gives no seed. -/
def new (config : Config) (entropy : Vector UInt32 8) : Machine where
  config := config
  memory := bootMemory
  registers := .zeroed
  pc := UInt16.ofNat Memory.programStart
  fetchedAt := UInt16.ofNat Memory.programStart
  index := 0
  stack := []
  delay := 0
  sound := 0
  waiting := none
  screen := .blank
  keypad := .idle
  random := .ofKey (config.seed.elim entropy ByteStream.keyOfSeed)

/-- Puts a program into memory at `Memory.programStart`. A program that does not fit is refused
and nothing is written. -/
def load (m : Machine) (program : List UInt8) : Report :=
  if Memory.programCapacity < program.length then
    ⟨m, some (.programTooLarge program.length Memory.programCapacity), []⟩
  else
    ⟨{ m with memory := m.memory.write Memory.programStart program }, none,
      [.loaded program.length Memory.programStart]⟩

/-- The number of open calls. -/
def depth (m : Machine) : Nat :=
  m.stack.length

/-- The machine waits for a key. -/
def isPaused (m : Machine) : Bool :=
  m.waiting.isSome

/-- The tone is on. -/
def isSounding (m : Machine) : Bool :=
  m.sound != 0

end Machine

end ChipEight
