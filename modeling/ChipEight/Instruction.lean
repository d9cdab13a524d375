import ChipEight.Word

/-!
# Instructions

What a program can ask of the machine, with the numbers of the registers, bytes and addresses
involved. `Instruction.encode` gives the word of an instruction and `Instruction.decode?` reads a
word; words that are no instruction give `none`.

## Main statements

* `Instruction.decode?_encode`: every instruction is read back from its word.
* `Instruction.encode_of_decode?`: a word that can be read is the word of what was read.
-/

namespace ChipEight

/-- What a conditional skip asks. -/
inductive Condition where
  /-- Register `x` holds `byte`. -/
  | equalsByte (x : Fin 16) (byte : UInt8)
  /-- Register `x` does not hold `byte`. -/
  | differsByte (x : Fin 16) (byte : UInt8)
  /-- The registers `x` and `y` hold the same byte. -/
  | equals (x y : Fin 16)
  /-- The registers `x` and `y` hold different bytes. -/
  | differs (x y : Fin 16)
  /-- The key whose number is in register `x` is held. -/
  | keyHeld (x : Fin 16)
  /-- No key with the number in register `x` is held. -/
  | keyFree (x : Fin 16)
deriving DecidableEq, Repr

/-- The operations on two registers, the first of which receives the result. -/
inductive AluOp where
  /-- The second operand. -/
  | assign
  /-- Bitwise or. -/
  | or
  /-- Bitwise and. -/
  | and
  /-- Bitwise exclusive or. -/
  | xor
  /-- The sum; the flag is the carry. -/
  | add
  /-- The first operand less the second; the flag says that the second is greater. -/
  | subtract
  /-- The first operand shifted right by one bit; the flag is the bit that falls out. -/
  | shiftRight
  /-- The second operand less the first; the flag says that the second is greater. -/
  | subtractFrom
  /-- The first operand shifted left by one bit; the flag is the bit that falls out. -/
  | shiftLeft
deriving DecidableEq, Repr

/-- The instructions of the machine. -/
inductive Instruction where
  /-- Clear the screen. -/
  | clear
  /-- Return from a subroutine. -/
  | ret
  /-- Go on at `target`. -/
  | jump (target : Fin 4096)
  /-- Call the subroutine at `target`. -/
  | call (target : Fin 4096)
  /-- Leave out the next instruction if the condition holds. -/
  | skipIf (condition : Condition)
  /-- Put `byte` into register `x`. -/
  | setByte (x : Fin 16) (byte : UInt8)
  /-- Add `byte` to register `x`, without a carry. -/
  | addByte (x : Fin 16) (byte : UInt8)
  /-- Combine register `x` with register `y`. -/
  | alu (op : AluOp) (x y : Fin 16)
  /-- Put `target` into the index. -/
  | setIndex (target : Fin 4096)
  /-- Go on at `base` plus the content of register 0. -/
  | jumpOffset (base : Fin 4096)
  /-- Put a random byte into register `x`, keeping only the bits of `mask`. -/
  | random (x : Fin 16) (mask : UInt8)
  /-- Draw the sprite of `rows` bytes at the index at the place in the registers `x` and `y`. -/
  | draw (x y rows : Fin 16)
  /-- Put the delay timer into register `x`. -/
  | readDelay (x : Fin 16)
  /-- Wait for a key and put its number into register `x`. -/
  | waitKey (x : Fin 16)
  /-- Set the delay timer from register `x`. -/
  | setDelay (x : Fin 16)
  /-- Set the sound timer from register `x`. -/
  | setSound (x : Fin 16)
  /-- Add register `x` to the index. -/
  | addIndex (x : Fin 16)
  /-- Point the index at the font sprite of the digit in register `x`. -/
  | pointAtDigit (x : Fin 16)
  /-- Store the three decimal digits of register `x` at the index. -/
  | storeDecimal (x : Fin 16)
  /-- Store the registers up to `x` at the index. -/
  | storeRegisters (x : Fin 16)
  /-- Load the registers up to `x` from the index. -/
  | loadRegisters (x : Fin 16)
deriving DecidableEq, Repr

/-! ### The words of the instructions -/

namespace AluOp

/-- The last digit of the words with this operation. -/
def digit : AluOp → Nat
  | assign => 0x0
  | or => 0x1
  | and => 0x2
  | xor => 0x3
  | add => 0x4
  | subtract => 0x5
  | shiftRight => 0x6
  | subtractFrom => 0x7
  | shiftLeft => 0xE

/-- The operation with the given last digit. -/
def ofDigit? : Nat → Option AluOp
  | 0x0 => some assign
  | 0x1 => some or
  | 0x2 => some and
  | 0x3 => some xor
  | 0x4 => some add
  | 0x5 => some subtract
  | 0x6 => some shiftRight
  | 0x7 => some subtractFrom
  | 0xE => some shiftLeft
  | _ => none

@[simp] theorem ofDigit?_digit (op : AluOp) : ofDigit? op.digit = some op := by
  cases op <;> rfl

@[simp] theorem digit_lt (op : AluOp) : op.digit < 16 := by
  cases op <;> decide

theorem digit_of_ofDigit? {d : Nat} {op : AluOp} (h : ofDigit? d = some op) : op.digit = d := by
  unfold ofDigit? at h
  split at h <;> cases h <;> rfl

end AluOp

/-- The word of a skip with this condition. -/
def Condition.encode : Condition → UInt16
  | equalsByte x byte => Word.ofByte 0x3 x byte
  | differsByte x byte => Word.ofByte 0x4 x byte
  | equals x y => Word.ofDigits 0x5 x y 0x0
  | differs x y => Word.ofDigits 0x9 x y 0x0
  | keyHeld x => Word.ofByte 0xE x 0x9E
  | keyFree x => Word.ofByte 0xE x 0xA1

namespace Instruction

/-- The word of an instruction. -/
def encode : Instruction → UInt16
  | clear => 0x00E0
  | ret => 0x00EE
  | jump target => Word.ofAddress 0x1 target
  | call target => Word.ofAddress 0x2 target
  | skipIf condition => condition.encode
  | setByte x byte => Word.ofByte 0x6 x byte
  | addByte x byte => Word.ofByte 0x7 x byte
  | alu op x y => Word.ofDigits 0x8 x y op.digit
  | setIndex target => Word.ofAddress 0xA target
  | jumpOffset base => Word.ofAddress 0xB base
  | random x mask => Word.ofByte 0xC x mask
  | draw x y rows => Word.ofDigits 0xD x y rows
  | readDelay x => Word.ofByte 0xF x 0x07
  | waitKey x => Word.ofByte 0xF x 0x0A
  | setDelay x => Word.ofByte 0xF x 0x15
  | setSound x => Word.ofByte 0xF x 0x18
  | addIndex x => Word.ofByte 0xF x 0x1E
  | pointAtDigit x => Word.ofByte 0xF x 0x29
  | storeDecimal x => Word.ofByte 0xF x 0x33
  | storeRegisters x => Word.ofByte 0xF x 0x55
  | loadRegisters x => Word.ofByte 0xF x 0x65

/-- The skip on the key in register `x` with the given last two digits. -/
def ofKeyCode? (x : Fin 16) (code : UInt8) : Option Instruction :=
  match code with
  | 0x9E => some (skipIf (.keyHeld x))
  | 0xA1 => some (skipIf (.keyFree x))
  | _ => none

/-- The instruction on register `x` and the timers, the index or memory with the given last two
digits. -/
def ofTransferCode? (x : Fin 16) (code : UInt8) : Option Instruction :=
  match code with
  | 0x07 => some (readDelay x)
  | 0x0A => some (waitKey x)
  | 0x15 => some (setDelay x)
  | 0x18 => some (setSound x)
  | 0x1E => some (addIndex x)
  | 0x29 => some (pointAtDigit x)
  | 0x33 => some (storeDecimal x)
  | 0x55 => some (storeRegisters x)
  | 0x65 => some (loadRegisters x)
  | _ => none

/-- The instruction that a word encodes, if it encodes one. -/
def decode? (w : UInt16) : Option Instruction :=
  let x := Word.x w
  let y := Word.y w
  match Word.family w with
  | 0x0 => if w = 0x00E0 then some clear else if w = 0x00EE then some ret else none
  | 0x1 => some (jump (Word.address w))
  | 0x2 => some (call (Word.address w))
  | 0x3 => some (skipIf (.equalsByte x (Word.byte w)))
  | 0x4 => some (skipIf (.differsByte x (Word.byte w)))
  | 0x5 => if (Word.n w).val = 0 then some (skipIf (.equals x y)) else none
  | 0x6 => some (setByte x (Word.byte w))
  | 0x7 => some (addByte x (Word.byte w))
  | 0x8 => (AluOp.ofDigit? (Word.n w).val).map (alu · x y)
  | 0x9 => if (Word.n w).val = 0 then some (skipIf (.differs x y)) else none
  | 0xA => some (setIndex (Word.address w))
  | 0xB => some (jumpOffset (Word.address w))
  | 0xC => some (random x (Word.byte w))
  | 0xD => some (draw x y (Word.n w))
  | 0xE => ofKeyCode? x (Word.byte w)
  | 0xF => ofTransferCode? x (Word.byte w)
  | _ => none

/-- Every instruction is read back from its word. -/
@[simp] theorem decode?_encode (i : Instruction) : decode? i.encode = some i := by
  cases i with
  | clear => rfl
  | ret => rfl
  | skipIf condition =>
    cases condition <;>
      simp [encode, Condition.encode, decode?, ofKeyCode?]
  | _ => simp [encode, decode?, ofTransferCode?]

theorem encode_of_ofKeyCode? {x : Fin 16} {code : UInt8} {i : Instruction}
    (h : ofKeyCode? x code = some i) : i.encode = Word.ofByte 0xE x code := by
  unfold ofKeyCode? at h
  split at h <;> cases h <;> simp_all [encode, Condition.encode]

theorem encode_of_ofTransferCode? {x : Fin 16} {code : UInt8} {i : Instruction}
    (h : ofTransferCode? x code = some i) : i.encode = Word.ofByte 0xF x code := by
  unfold ofTransferCode? at h
  split at h <;> cases h <;> simp_all [encode]

/-- A word that can be read is the word of what was read. -/
theorem encode_of_decode? {w : UInt16} {i : Instruction} (h : decode? w = some i) :
    i.encode = w := by
  have digits := Word.ofDigits_parts w
  have byte := Word.ofByte_parts w
  have address := Word.ofAddress_parts w
  unfold decode? at h
  split at h <;> rename_i hfamily
  case h_17 => cases h
  all_goals rw [hfamily] at digits byte address
  case h_1 =>
    split at h
    · next hw => cases h; exact hw.symm
    · split at h
      · next hw => cases h; exact hw.symm
      · cases h
  case h_6 | h_10 =>
    split at h
    · next hn => cases h; rw [hn] at digits; exact digits
    · cases h
  case h_9 =>
    obtain ⟨op, hop, rfl⟩ := Option.map_eq_some_iff.1 h
    rw [← AluOp.digit_of_ofDigit? hop] at digits
    exact digits
  case h_14 => cases h; exact digits
  case h_15 => exact (encode_of_ofKeyCode? h).trans byte
  case h_16 => exact (encode_of_ofTransferCode? h).trans byte
  case h_2 | h_3 | h_11 | h_12 => cases h; exact address
  case h_4 | h_5 | h_7 | h_8 | h_13 => cases h; exact byte

end Instruction

end ChipEight
