import ChipEight.Machine.Cycle

/-!
# Checked cycles

The operations of a machine are total: a read outside memory gives `0`, sums wrap around, and an
instruction gives its whole effect at once. Here a cycle is written out once more as a sequence of
single reads and writes, where a register, an address or a pixel is a plain number that is checked
when it is used, and where a sum or a conversion must fit its type unless it wraps around on
purpose. A check that fails ends the computation with `Stop.violation`. An early end undoes nothing:
what was written before stays written.

That no check ever fails, and that a checked cycle ends as `Machine.cycle` says, is proved in
`ChipEight.Proofs.Checked.Agreement`.
-/

namespace ChipEight

/-- Why a checked computation ends early. -/
inductive Checked.Stop where
  /-- The machine refuses to go on. -/
  | fault (fault : Fault)
  /-- An index lies outside, or a number does not fit where it is to go. -/
  | violation
deriving DecidableEq, Repr

/-- Checked computations on a machine. -/
abbrev Checked := EStateM Checked.Stop Machine

namespace Checked

/-- Ends with a violation unless `p` holds. -/
def demand (p : Prop) [Decidable p] : Checked Unit :=
  if p then pure () else throw .violation

/-- A number as a word of sixteen bits, into which it must fit. -/
def narrow (n : Nat) : Checked UInt16 := do
  demand (n < 65536)
  return UInt16.ofNat n

/-- The byte at an address, which must lie in memory. -/
def loadByte (address : Nat) : Checked UInt8 := do
  demand (address < Memory.size)
  return (← get).memory.read address

/-- Replaces the byte at an address, which must lie in memory. -/
def storeByte (address : Nat) (byte : UInt8) : Checked Unit := do
  demand (address < Memory.size)
  modify fun m => { m with memory := m.memory.set address byte }

/-- Stores bytes one after the other, the first one at `start`. -/
def storeBytes (start : Nat) : List UInt8 → Checked Unit
  | [] => pure ()
  | byte :: bytes => do
    storeByte start byte
    storeBytes (start + 1) bytes

/-- The content of a register, which must exist. -/
def register (x : Nat) : Checked UInt8 := do
  let m ← get
  if h : x < Registers.count then return m.v ⟨x, h⟩ else throw .violation

/-- Replaces the content of a register, which must exist. -/
def setRegister (x : Nat) (byte : UInt8) : Checked Unit :=
  if h : x < Registers.count then modify fun m => m.setV ⟨x, h⟩ byte else throw .violation

/-- Replaces the contents of registers one after the other, the first one being `x`. -/
def setRegisters (x : Nat) : List UInt8 → Checked Unit
  | [] => pure ()
  | byte :: bytes => do
    setRegister x byte
    setRegisters (x + 1) bytes

/-- Turns over the pixel at the coordinates `x` and `y`, which must lie on the screen, and tells
whether it was lit. -/
def toggle (x y : Nat) : Checked Bool :=
  match Cell.at? x y with
  | none => throw .violation
  | some cell =>
    modifyGet fun m => (m.screen.isLit cell, { m with screen := (m.screen.toggle cell).2 })

/-- Moves `pc`. -/
def moveTo (target : Nat) : Checked Unit := do
  let pc ← narrow target
  modify fun m => { m with pc }

/-- Moves the index. -/
def pointAt (target : Nat) : Checked Unit := do
  let index ← narrow target
  modify fun m => { m with index }

/-- Refuses an access to the `n` bytes at the index if they do not fit. -/
def checkRange (n : Nat) : Checked Unit := do
  let start := (← get).index.toNat
  if Memory.size < start + n then
    demand (1 ≤ start + n)
    throw (.fault (.memoryOutOfBounds (start + n - 1)))

/-- Tells whether the condition of a skip holds. -/
def holds : Condition → Checked Bool
  | .equalsByte x byte => return (← register x) == byte
  | .differsByte x byte => return (← register x) != byte
  | .equals x y => return (← register x) == (← register y)
  | .differs x y => return (← register x) != (← register y)
  | .keyHeld x => return (← get).keypad.isHeld (← register x).toNat
  | .keyFree x => return !(← get).keypad.isHeld (← register x).toNat

/-- Turns over the pixels under the set bits of a row of a sprite, in the given columns. -/
def drawColumns (x y : Nat) (byte : UInt8) : List Nat → Checked Bool
  | [] => return false
  | column :: columns => do
    if byte.toNat.testBit (7 - column) then
      let hit ← toggle ((x + column) % Screen.width) (y % Screen.height)
      let hits ← drawColumns x y byte columns
      return hit || hits
    else
      drawColumns x y byte columns

/-- Draws a number of rows of the sprite at `address`, the first one at the row `y`. -/
def drawRows (x y address : Nat) : Nat → Checked Bool
  | 0 => return false
  | rows + 1 => do
    let byte ← loadByte address
    let hit ← drawColumns x y byte (List.range 8)
    let hits ← drawRows x (y + 1) (address + 1) rows
    return hit || hits

/-- An instruction, read by read and write by write. -/
def execute : Instruction → Checked Unit
  | .clear => modify fun m => { m with screen := m.screen.clear }
  | .ret => do
    let m ← get
    match m.stack with
    | [] => throw (.fault (.stackUnderflow m.fetchedAt))
    | address :: stack =>
      modify fun m => { m with stack }
      modify fun m => { m with pc := address }
  | .jump target => moveTo target
  | .call target => do
    let m ← get
    match m.config.stackLimit with
    | none => pure ()
    | some limit =>
      if limit ≤ m.stack.length then throw (.fault (.stackOverflow m.fetchedAt limit))
    modify fun m => { m with stack := m.pc :: m.stack }
    moveTo target
  | .skipIf condition => do
    if ← holds condition then moveTo ((← get).pc.toNat + 2)
  | .setByte x byte => setRegister x byte
  | .addByte x byte => do setRegister x ((← register x) + byte)
  | .alu op x y => do
    let vx ← register x
    let vy ← register y
    let (result, flag) := op.apply (← get).config.normalizeShiftFlag vx vy
    match flag with
    | none => pure ()
    | some carry => setRegister Registers.flag carry
    setRegister x result
  | .setIndex target => pointAt target
  | .jumpOffset base => do moveTo (base + (← register 0).toNat)
  | .random x mask => do
    let byte ← modifyGet fun m => (m.random.next.1, { m with random := m.random.next.2 })
    setRegister x (byte &&& mask)
  | .draw x y rows => do
    checkRange rows
    let start := (← get).index.toNat
    let left ← register x
    let top ← register y
    let collision ← drawRows left.toNat top.toNat start rows
    setRegister Registers.flag (if collision then 1 else 0)
  | .readDelay x => do setRegister x (← get).delay
  | .waitKey x => do
    modify fun m => { m with keypad := m.keypad.take.2 }
    modify fun m => { m with waiting := some x }
  | .setDelay x => do
    let value ← register x
    modify fun m => { m with delay := value }
  | .setSound x => do
    let value ← register x
    modify fun m => { m with sound := value }
  | .addIndex x => do
    let value ← register x
    modify fun m => { m with index := m.index + value.toUInt16 }
  | .pointAtDigit x => do pointAt (Font.entry + (← register x).toNat * Font.spriteSize)
  | .storeDecimal x => do
    checkRange 3
    let start := (← get).index.toNat
    let value ← register x
    storeByte start (value / 100)
    storeByte (start + 1) (value % 100 / 10)
    storeByte (start + 2) (value % 10)
  | .storeRegisters x => do
    checkRange (x + 1)
    let start := (← get).index.toNat
    let bytes ← (List.range (x + 1)).mapM register
    storeBytes start bytes
  | .loadRegisters x => do
    checkRange (x + 1)
    let start := (← get).index.toNat
    let bytes ← (List.range (x + 1)).mapM fun k => loadByte (start + k)
    setRegisters 0 bytes

/-- Fetches the word at `pc` and moves `pc` behind it. -/
def fetch : Checked UInt16 := do
  let pc := (← get).pc
  if Memory.size ≤ pc.toNat + 1 then
    throw (.fault (.memoryOutOfBounds (pc.toNat + 1)))
  let upper ← loadByte pc.toNat
  let lower ← loadByte (pc.toNat + 1)
  modify fun m => { m with fetchedAt := pc }
  moveTo (pc.toNat + 2)
  narrow (upper.toNat * 256 + lower.toNat)

/-- One cycle. -/
def cycle : Checked Unit := do
  let m ← get
  match m.waiting with
  | some x =>
    match m.keypad.latch with
    | none => pure ()
    | some key =>
      modify fun m => { m with keypad := m.keypad.take.2 }
      demand (key.val < 256)
      setRegister x (UInt8.ofNat key)
      modify fun m => { m with waiting := none }
  | none =>
    let word ← fetch
    match Instruction.decode? word with
    | none => throw (.fault (.unknownOpcode word (← get).fetchedAt))
    | some instruction => execute instruction
  modify Machine.tickTimers

end Checked

end ChipEight
