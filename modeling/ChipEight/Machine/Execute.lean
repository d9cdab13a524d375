import ChipEight.Machine.Basic
import ChipEight.Sprite

/-!
# Executing an instruction

`Machine.execute` is the effect of one instruction that was fetched already, so that `pc` points
behind it and `fetchedAt` at it. Instructions that can fail check everything before they change
anything, so a failure has no effect at all and is only a `Fault`.
-/

namespace ChipEight

namespace AluOp

/-- The result of an operation and, for those that set it, the new content of the flag register.
With `normalize` a left shift gives the flag as 0 or 1, otherwise as 0 or `0x80`. -/
def apply (normalize : Bool) (op : AluOp) (vx vy : UInt8) : UInt8 × Option UInt8 :=
  match op with
  | assign => (vy, none)
  | or => (vx ||| vy, none)
  | and => (vx &&& vy, none)
  | xor => (vx ^^^ vy, none)
  | add => (vx + vy, some (if 255 < vx.toNat + vy.toNat then 1 else 0))
  | subtract => (vx - vy, some (if vx < vy then 1 else 0))
  | shiftRight => (vx >>> 1, some (vx &&& 0x01))
  | subtractFrom => (vy - vx, some (if vx < vy then 1 else 0))
  | shiftLeft => (vx <<< 1, some (if normalize then (vx &&& 0x80) >>> 7 else vx &&& 0x80))

end AluOp

namespace Registers

/-- Combines register `x` with register `y`. Both operands are read first; the flag register is
written before `x`, so a result that goes into the flag register replaces the flag. -/
def combine (r : Registers) (normalize : Bool) (op : AluOp) (x y : Fin 16) : Registers :=
  match op.apply normalize (r.get x) (r.get y) with
  | (result, none) => r.set x result
  | (result, some carry) => (r.set flag carry).set x result

end Registers

namespace Machine

/-- The number in register `x`. -/
def v (m : Machine) (x : Fin 16) : UInt8 :=
  m.registers.get x

/-- The machine with `value` in register `x`. -/
def setV (m : Machine) (x : Fin 16) (value : UInt8) : Machine :=
  { m with registers := m.registers.set x value }

/-- The condition of a skip holds. Numbers that name no key count as keys that are not held. -/
def Holds (m : Machine) : Condition → Prop
  | .equalsByte x byte => m.v x = byte
  | .differsByte x byte => m.v x ≠ byte
  | .equals x y => m.v x = m.v y
  | .differs x y => m.v x ≠ m.v y
  | .keyHeld x => m.keypad.isHeld (m.v x).toNat = true
  | .keyFree x => m.keypad.isHeld (m.v x).toNat = false

instance (m : Machine) (c : Condition) : Decidable (m.Holds c) := by
  cases c <;> unfold Holds <;> infer_instance

/-- Leaves out the instruction at `pc`. -/
def skip (m : Machine) : Machine :=
  { m with pc := m.pc + 2 }

/-- The fault of an access to the `n` bytes at the index, which reaches past the end of memory. -/
def indexFault (m : Machine) (n : Nat) : Fault :=
  .memoryOutOfBounds (m.index.toNat + n - 1)

/-- The three decimal digits of a byte. -/
def decimalDigits (value : UInt8) : List UInt8 :=
  [value / 100, value % 100 / 10, value % 10]

/-- Draws the sprite of `rows` bytes at the index with its corner at the place in the registers
`x` and `y`. The flag register tells whether a lit pixel was put out. -/
def draw (m : Machine) (x y : Fin 16) (rows : Nat) : Machine :=
  let sprite := m.memory.slice m.index.toNat rows
  let (collision, screen) :=
    m.screen.toggleAll (Sprite.cells (m.v x).toNat (m.v y).toNat sprite)
  { m with
    screen
    registers := m.registers.set Registers.flag (if collision then 1 else 0) }

/-- The effect of an instruction, or the reason why it cannot be executed. -/
def execute (m : Machine) : Instruction → Except Fault Machine
  | .clear => .ok { m with screen := m.screen.clear }
  | .ret =>
    match m.stack with
    | [] => .error (.stackUnderflow m.fetchedAt)
    | address :: stack => .ok { m with pc := address, stack }
  | .jump target => .ok { m with pc := UInt16.ofNat target }
  | .call target =>
    -- `pc` is behind the call already, so it is where the subroutine returns to.
    let called := { m with pc := UInt16.ofNat target, stack := m.pc :: m.stack }
    match m.config.stackLimit with
    | none => .ok called
    | some limit =>
      if limit ≤ m.depth then .error (.stackOverflow m.fetchedAt limit) else .ok called
  | .skipIf condition => .ok (if m.Holds condition then m.skip else m)
  | .setByte x byte => .ok (m.setV x byte)
  | .addByte x byte => .ok (m.setV x (m.v x + byte))
  | .alu op x y =>
    .ok { m with registers := m.registers.combine m.config.normalizeShiftFlag op x y }
  | .setIndex target => .ok { m with index := UInt16.ofNat target }
  | .jumpOffset base => .ok { m with pc := UInt16.ofNat (base + (m.v Registers.first).toNat) }
  | .random x mask =>
    let (byte, random) := m.random.next
    .ok ({ m with random }.setV x (byte &&& mask))
  | .draw x y rows =>
    if Memory.Spans m.index.toNat rows then .ok (m.draw x y rows) else .error (m.indexFault rows)
  | .readDelay x => .ok (m.setV x m.delay)
  -- A press from before the wait does not count, so the latch is emptied.
  | .waitKey x => .ok { m with keypad := m.keypad.take.2, waiting := some x }
  | .setDelay x => .ok { m with delay := m.v x }
  | .setSound x => .ok { m with sound := m.v x }
  | .addIndex x => .ok { m with index := m.index + (m.v x).toUInt16 }
  | .pointAtDigit x => .ok { m with index := Font.address (m.v x) }
  | .storeDecimal x =>
    if Memory.Spans m.index.toNat 3 then
      .ok { m with memory := m.memory.write m.index.toNat (decimalDigits (m.v x)) }
    else .error (m.indexFault 3)
  | .storeRegisters x =>
    if Memory.Spans m.index.toNat (x + 1) then
      .ok { m with memory := m.memory.write m.index.toNat (m.registers.upTo x) }
    else .error (m.indexFault (x + 1))
  | .loadRegisters x =>
    if Memory.Spans m.index.toNat (x + 1) then
      .ok { m with registers := m.registers.fill x fun k => m.memory.read (m.index.toNat + k) }
    else .error (m.indexFault (x + 1))

end Machine

end ChipEight
