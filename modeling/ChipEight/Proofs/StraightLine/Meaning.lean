import ChipEight.Proofs.Runs
import Mathlib.Data.Nat.Bitwise

/-!
# The meaning of straight-line code

Straight-line instructions compute: they change registers, the index and the timers, and the
instruction behind them is next. What they compute is said here on natural numbers alone, with no
machine, no memory and no words.

* `Instruction.IsStraight` says which instructions these are.
* `Values.perform` is the table of what each of them does, and `Values.after` is what a program
  does, where both timers count down behind every instruction.
* `Machine.values` are the numbers that a machine holds, and `Machine.values_effect` says that the
  machine follows the table.
-/

namespace ChipEight

/-- The instruction neither jumps nor skips, nor has it to do with memory, the stack, the screen,
the keypad or random bytes. -/
inductive Instruction.IsStraight : Instruction → Prop where
  | setByte (x : Fin 16) (byte : UInt8) : IsStraight (.setByte x byte)
  | addByte (x : Fin 16) (byte : UInt8) : IsStraight (.addByte x byte)
  | alu (op : AluOp) (x y : Fin 16) : IsStraight (.alu op x y)
  | setIndex (target : Fin 4096) : IsStraight (.setIndex target)
  | readDelay (x : Fin 16) : IsStraight (.readDelay x)
  | setDelay (x : Fin 16) : IsStraight (.setDelay x)
  | setSound (x : Fin 16) : IsStraight (.setSound x)
  | addIndex (x : Fin 16) : IsStraight (.addIndex x)
  | pointAtDigit (x : Fin 16) : IsStraight (.pointAtDigit x)

instance : DecidablePred Instruction.IsStraight
  | .setByte x byte => .isTrue (.setByte x byte)
  | .addByte x byte => .isTrue (.addByte x byte)
  | .alu op x y => .isTrue (.alu op x y)
  | .setIndex target => .isTrue (.setIndex target)
  | .readDelay x => .isTrue (.readDelay x)
  | .setDelay x => .isTrue (.setDelay x)
  | .setSound x => .isTrue (.setSound x)
  | .addIndex x => .isTrue (.addIndex x)
  | .pointAtDigit x => .isTrue (.pointAtDigit x)
  | .clear | .ret | .jump _ | .call _ | .skipIf _ | .jumpOffset _ | .random _ _ | .draw _ _ _
  | .waitKey _ | .storeDecimal _ | .storeRegisters _ | .loadRegisters _ => .isFalse nofun

namespace AluOp

/-- The result of an operation on the numbers `p` and `q` of its two registers. -/
def value (p q : Nat) : AluOp → Nat
  | assign => q
  | or => p ||| q
  | and => p &&& q
  | xor => p ^^^ q
  | add => (p + q) % 256
  | subtract => (p + 256 - q) % 256
  | shiftRight => p / 2
  | subtractFrom => (q + 256 - p) % 256
  | shiftLeft => 2 * p % 256

/-- The number for the flag register, if the operation sets it. The bit that a left shift drops is
128 where it stood; with `normalize` it counts as 1. -/
def flagValue (normalize : Bool) (p q : Nat) : AluOp → Option Nat
  | add => some (if 255 < p + q then 1 else 0)
  | subtract | subtractFrom => some (if p < q then 1 else 0)
  | shiftRight => some (p % 2)
  | shiftLeft => some (if p < 128 then 0 else if normalize then 1 else 128)
  | assign | or | and | xor => none

theorem toNat_fst_apply (normalize : Bool) (op : AluOp) (p q : UInt8) :
    (op.apply normalize p q).1.toNat = op.value p.toNat q.toNat := by
  have hp := p.toNat_lt
  have hq := q.toNat_lt
  cases op with
  | assign => rfl
  | or => exact UInt8.toNat_or p q
  | and => exact UInt8.toNat_and p q
  | xor => exact UInt8.toNat_xor p q
  | add => exact UInt8.toNat_add p q
  | subtract =>
    show (p - q).toNat = (p.toNat + 256 - q.toNat) % 256
    rw [UInt8.toNat_sub]
    omega
  | shiftRight => exact (UInt8.toNat_shiftRight p 1).trans (Nat.shiftRight_eq_div_pow p.toNat 1)
  | subtractFrom =>
    show (q - p).toNat = (q.toNat + 256 - p.toNat) % 256
    rw [UInt8.toNat_sub]
    omega
  | shiftLeft =>
    show (p <<< 1).toNat = 2 * p.toNat % 256
    rw [UInt8.toNat_shiftLeft]
    show p.toNat <<< 1 % 256 = 2 * p.toNat % 256
    rw [Nat.shiftLeft_eq, Nat.mul_comm]

/-- The upper bit of a byte, where it stands. -/
theorem toNat_and_upper (p : UInt8) : (p &&& 0x80).toNat = if p.toNat < 128 then 0 else 128 := by
  -- the upper bit is set from 128 on
  have hp := p.toNat_lt
  have hbit : p.toNat &&& 2 ^ 7 = (p.toNat.testBit 7).toNat * 2 ^ 7 := Nat.and_two_pow p.toNat 7
  rw [UInt8.toNat_and]
  show p.toNat &&& 2 ^ 7 = _
  rw [hbit, Nat.testBit_eq_decide_div_mod_eq]
  split
  · next hlt =>
    have hzero : p.toNat / 2 ^ 7 % 2 = 0 := by omega
    rw [hzero]
    rfl
  · next hge =>
    have hone : p.toNat / 2 ^ 7 % 2 = 1 := by omega
    rw [hone]
    rfl

theorem toNat_snd_apply (normalize : Bool) (op : AluOp) (p q : UInt8) :
    (op.apply normalize p q).2.map UInt8.toNat = op.flagValue normalize p.toNat q.toNat := by
  cases op with
  | assign | or | and | xor => rfl
  | add | subtract | subtractFrom =>
    refine congrArg some ?_
    rw [apply_ite UInt8.toNat]
    rfl
  | shiftRight =>
    -- the lowest bit is the remainder by two
    refine congrArg some ?_
    exact (UInt8.toNat_and p 1).trans (Nat.and_one_is_mod p.toNat)
  | shiftLeft =>
    refine congrArg some ?_
    have hupper := toNat_and_upper p
    cases normalize with
    | false => exact hupper
    | true =>
      show ((p &&& 0x80) >>> 7).toNat = if p.toNat < 128 then 0 else 1
      rw [UInt8.toNat_shiftRight, hupper]
      split <;> rfl

end AluOp

/-- The numbers that straight-line code works on. -/
@[ext] structure Values where
  /-- The registers. -/
  v : Fin 16 → Nat
  /-- The index. -/
  index : Nat
  /-- The delay timer. -/
  delay : Nat
  /-- The sound timer. -/
  sound : Nat

namespace Values

/-- Zero everywhere. -/
def zeroed : Values := ⟨fun _ => 0, 0, 0, 0⟩

/-- Replaces the number in register `x`. -/
def put (s : Values) (x : Fin 16) (value : Nat) : Values :=
  { s with v := fun y => if x = y then value else s.v y }

/-- Combines register `x` with register `y`. The numbers of both are those from before; the flag is
stored first, so that the result replaces it where `x` is the flag register. -/
def combine (s : Values) (normalize : Bool) (op : AluOp) (x y : Fin 16) : Values :=
  let result := op.value (s.v x) (s.v y)
  match op.flagValue normalize (s.v x) (s.v y) with
  | none => s.put x result
  | some flag => (s.put Registers.flag flag).put x result

/-- What each instruction of straight-line code does to the numbers. -/
def perform (normalize : Bool) (s : Values) : Instruction → Values
  | .setByte x byte => s.put x byte.toNat
  | .addByte x byte => s.put x ((s.v x + byte.toNat) % 256)
  | .alu op x y => s.combine normalize op x y
  | .setIndex target => { s with index := target }
  | .readDelay x => s.put x s.delay
  | .setDelay x => { s with delay := s.v x }
  | .setSound x => { s with sound := s.v x }
  | .addIndex x => { s with index := (s.index + s.v x) % 65536 }
  | .pointAtDigit x => { s with index := 5 * s.v x }
  | _ => s

/-- Both timers are one less, where they are not zero. -/
def tick (s : Values) : Values :=
  { s with delay := s.delay - 1, sound := s.sound - 1 }

/-- The numbers after a program. -/
def after (normalize : Bool) (s : Values) (program : List Instruction) : Values :=
  program.foldl (fun s i => (s.perform normalize i).tick) s

theorem after_concat (normalize : Bool) (s : Values) (program : List Instruction)
    (i : Instruction) :
    s.after normalize (program ++ [i]) = ((s.after normalize program).perform normalize i).tick :=
  List.foldl_append

end Values

namespace Machine

variable {m : Machine}

/-- The numbers in the registers, the index and the timers. -/
def values (m : Machine) : Values :=
  ⟨fun x => (m.v x).toNat, m.index.toNat, m.delay.toNat, m.sound.toNat⟩

theorem values_setV (m : Machine) (x : Fin 16) (value : UInt8) :
    (m.setV x value).values = m.values.put x value.toNat := by
  have hregister : ∀ y,
      ((m.setV x value).v y).toNat = if x = y then value.toNat else (m.v y).toNat :=
    fun y => (congrArg UInt8.toNat (Registers.get_set m.registers x y value)).trans
      (apply_ite UInt8.toNat _ _ _)
  exact Values.ext (funext hregister) rfl rfl rfl

theorem values_tickTimers (m : Machine) : m.tickTimers.values = m.values.tick :=
  Values.ext rfl rfl (toNat_countDown m.delay) (toNat_countDown m.sound)

theorem values_combine (m : Machine) (normalize : Bool) (op : AluOp) (x y : Fin 16) :
    { m with registers := m.registers.combine normalize op x y }.values =
      m.values.combine normalize op x y := by
  -- The bytes that the machine stores are the numbers that the table stores.
  rcases happly : op.apply normalize (m.registers.get x) (m.registers.get y) with ⟨result, carry⟩
  have hresult : op.value (m.values.v x) (m.values.v y) = result.toNat := by
    rw [values, ← AluOp.toNat_fst_apply normalize]
    exact congrArg (UInt8.toNat ·.1) happly
  have hflag : op.flagValue normalize (m.values.v x) (m.values.v y) = carry.map UInt8.toNat := by
    rw [values, ← AluOp.toNat_snd_apply]
    exact congrArg (Option.map UInt8.toNat ·.2) happly
  rw [Registers.combine, Values.combine, happly, hresult, hflag]
  cases carry with
  | none => exact values_setV m x result
  | some carry =>
    show ((m.setV Registers.flag carry).setV x result).values = _
    rw [values_setV, values_setV]
    rfl

theorem values_effect {i : Instruction} (h : i.IsStraight) :
    (m.effect i).values = m.values.perform m.config.normalizeShiftFlag i := by
  cases h with
  | setByte x byte => exact values_setV m x byte
  | addByte x byte =>
    rw [effect, values_setV, UInt8.toNat_add]
    rfl
  | alu op x y => exact values_combine m _ op x y
  | setIndex target =>
    have htarget := target.isLt
    refine Values.ext rfl ?_ rfl rfl
    show (UInt16.ofNat target).toNat = target
    rw [UInt16.toNat_ofNat']
    omega
  | readDelay x => exact values_setV m x m.delay
  | setDelay x | setSound x => rfl
  | addIndex x =>
    refine Values.ext rfl ?_ rfl rfl
    show (m.index + (m.v x).toUInt16).toNat = (m.index.toNat + (m.v x).toNat) % 65536
    rw [UInt16.toNat_add, UInt8.toNat_toUInt16]
  | pointAtDigit x => exact Values.ext rfl (Font.toNat_address (m.v x)) rfl rfl

end Machine

end ChipEight
