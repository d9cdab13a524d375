import ChipEight.Proofs.Footprint
import ChipEight.Proofs.Outcome

/-!
# Where a cycle goes on

Every instruction leaves `pc` behind its word, except those that jump, call, return or leave out the
instruction behind them. `Machine.nextAddress` is the address at which the machine goes on, told
from the digits of the word without reading it as an instruction; `Machine.LeavesOut` is the
condition under which the instruction behind the word is left out. `Machine.cycle_goes_on` shows
that every cycle that succeeds goes on there.

Addresses are sums of numbers here, while `pc` is a word of sixteen bits. None of the additions
wraps around, because a word that is fetched lies in memory.
-/

namespace ChipEight.Machine

open Word

variable {m : Machine}

/-- The number in register `x` is the one of a key, and the key is held. -/
def HoldsKey (m : Machine) (x : Fin 16) : Prop :=
  ∃ h : (m.v x).toNat < 16, m.keypad.held[(m.v x).toNat] = true

instance (m : Machine) (x : Fin 16) : Decidable (m.HoldsKey x) := by
  unfold HoldsKey
  infer_instance

/-- The instruction word `w` leaves out the instruction behind it, by the digits of `w`. -/
def LeavesOut (m : Machine) (w : UInt16) : Prop :=
  match family w with
  | 0x3 => m.v (x w) = byte w
  | 0x4 => m.v (x w) ≠ byte w
  | 0x5 => m.v (x w) = m.v (y w)
  | 0x9 => m.v (x w) ≠ m.v (y w)
  | 0xE => (byte w = 0x9E ∧ m.HoldsKey (x w)) ∨ (byte w = 0xA1 ∧ ¬ m.HoldsKey (x w))
  | _ => False

instance (m : Machine) (w : UInt16) : Decidable (m.LeavesOut w) := by
  unfold LeavesOut
  split <;> infer_instance

/-- The address at which the machine goes on after the instruction word `w` at `pc`, by the digits
of `w`. A return goes to the latest address on the stack. -/
def nextAddress (m : Machine) (w : UInt16) : Nat :=
  let behind := m.pc.toNat + 2
  match family w with
  | 0x0 => if w = 0x00EE then m.stack.head?.elim behind UInt16.toNat else behind
  | 0x1 | 0x2 => address w
  | 0xB => address w + (m.v Registers.first).toNat
  | _ => if m.LeavesOut w then m.pc.toNat + 4 else behind

/-! ### Skips -/

theorem isHeld_iff_holdsKey (m : Machine) (x : Fin 16) :
    m.keypad.isHeld (m.v x).toNat = true ↔ m.HoldsKey x := by
  unfold HexKeypad.isHeld HoldsKey
  split
  · next h => simp [h]
  · next h => simp [h]

/-- The condition of a skip holds as the digits of its word tell. -/
theorem holds_iff_leavesOut (m : Machine) (c : Condition) : m.Holds c ↔ m.LeavesOut c.encode := by
  cases c with
  | equalsByte x byte | differsByte x byte | equals x y | differs x y =>
    simp [Holds, LeavesOut, Condition.encode]
  | keyHeld x => simp [Holds, LeavesOut, Condition.encode, isHeld_iff_holdsKey]
  | keyFree x =>
    simp [Holds, LeavesOut, Condition.encode, ← isHeld_iff_holdsKey]

theorem nextAddress_of_skip (m : Machine) (c : Condition) :
    m.nextAddress c.encode =
      if m.LeavesOut c.encode then m.pc.toNat + 4 else m.pc.toNat + 2 := by
  have hfamily : family c.encode = 0x3 ∨ family c.encode = 0x4 ∨ family c.encode = 0x5 ∨
      family c.encode = 0x9 ∨ family c.encode = 0xE := by
    cases c <;> simp [Condition.encode]
  rcases hfamily with h | h | h | h | h <;> simp only [nextAddress, h]

/-- A skip goes on behind its word or one instruction further. -/
theorem toNat_pc_skipIf (hinside : m.pc.toNat + 1 < 4096) (c : Condition) :
    (m.fetched.effect (.skipIf c)).pc.toNat = m.nextAddress c.encode := by
  have hbehind := toNat_pc_fetched hinside
  -- the fetch moves `pc` only, on which no condition depends
  have hfetched : m.fetched.Holds c ↔ m.Holds c := by
    cases c <;> exact Iff.rfl
  have hholds := hfetched.trans (holds_iff_leavesOut m c)
  rw [nextAddress_of_skip, pc_effect]
  dsimp only
  by_cases h : m.LeavesOut c.encode
  · have hskip : (m.fetched.pc + 2).toNat = (m.fetched.pc.toNat + 2) % 65536 :=
      UInt16.toNat_add m.fetched.pc 2
    rw [if_pos (hholds.2 h), if_pos h, hskip]
    omega
  · rw [if_neg (mt hholds.1 h), if_neg h, hbehind]

/-! ### All instructions -/

/-- An instruction goes on as the digits of its word tell. -/
theorem toNat_pc_effect (hinside : m.pc.toNat + 1 < 4096) (i : Instruction) :
    (m.fetched.effect i).pc.toNat = m.nextAddress i.encode := by
  have hbehind := toNat_pc_fetched hinside
  cases i with
  | ret =>
    -- without an open call the return is refused, and both sides stay behind the word
    show (m.stack.headD m.fetched.pc).toNat = _
    cases hstack : m.stack <;> simp [nextAddress, Instruction.encode, family, hstack, hbehind]
  | jump target | call target =>
    have hfits : target.val < 65536 := by omega
    simpa [effect, nextAddress, Instruction.encode] using hfits
  | skipIf c => exact toNat_pc_skipIf hinside c
  | jumpOffset base =>
    have hbyte := (m.v Registers.first).toNat_lt
    have hoffset : m.fetched.v Registers.first = m.v Registers.first := rfl
    -- twelve bits and a byte stay far below sixteen bits
    have hfits : base.val + (m.v Registers.first).toNat < 65536 := by omega
    simpa [effect, nextAddress, Instruction.encode, hoffset] using hfits
  | clear => simp [pc_effect, nextAddress, Instruction.encode, family, hbehind]
  | _ =>
    rw [pc_effect]
    simp [nextAddress, LeavesOut, Instruction.encode, hbehind]

/-- Every cycle goes on where it has to. A cycle that executes an instruction leaves `pc` at
`nextAddress`; a return that succeeds takes this address off the stack. A paused cycle does not
move `pc`. -/
theorem cycle_goes_on (m : Machine) :
    (m.waiting = none → m.cycle.fault = none →
      m.cycle.machine.pc.toNat = m.nextAddress m.nextWord ∧
        (m.nextWord = 0x00EE → m.stack = m.cycle.machine.pc :: m.cycle.machine.stack)) ∧
      ∀ x, m.waiting = some x → m.cycle.fault = none ∧ m.cycle.machine.pc = m.pc := by
  constructor
  · intro hrunning hsuccess
    cases m.cycleCase with
    | paused x hwaiting hcycle =>
      rw [hrunning] at hwaiting
      cases hwaiting
    | unfetched _ _ hcycle | unreadable _ _ _ hcycle | refused _ _ _ _ hcycle =>
      rw [hcycle] at hsuccess
      cases hsuccess
    | executed i hexec hrefusal hcycle =>
      -- what was executed is what the word encodes, so the word tells where the machine goes on
      have hword : i.encode = m.nextWord := Instruction.encode_of_decode? hexec.reads
      rw [hcycle, ← hword]
      refine ⟨toNat_pc_effect hexec.inside i, fun hret => ?_⟩
      obtain rfl : i = .ret := by
        rw [← Option.some_inj, ← Instruction.decode?_encode i, hret]
        rfl
      exact stack_effect_of_refusal hrefusal
  · intro x hwaiting
    obtain ⟨hfault, hfootprint⟩ := pauseFootprint_awaitKey m x
    rw [cycle_of_paused hwaiting]
    exact ⟨hfault, hfootprint.pc⟩

/-- A program jumps by 255 from the last address of memory and goes on far behind it. Another
program waits for a key, and a cycle later it still stands behind its instruction. -/
theorem cycle_goes_on_offset :
    let start := Machine.new {} (Vector.replicate 8 0)
    let m := start.after [.load (Instruction.assemble [.setByte 0 0xFF, .jumpOffset 0xFFF]), .cycle]
    let paused := start.after [.load (Instruction.waitKey 5).bytes, .cycle]
    m.waiting = none ∧ m.cycle.fault = none ∧ m.cycle.machine.pc.toNat = 0x10FE ∧
      paused.waiting = some 5 ∧ paused.cycle.machine.pc = paused.pc ∧ paused.pc = 0x202 := by
  intro start m paused
  obtain ⟨hrunning, hsuccess, haddress, hwaiting, hbehind⟩ :
      m.waiting = none ∧ m.cycle.fault = none ∧ m.nextAddress m.nextWord = 0x10FE ∧
        paused.waiting = some 5 ∧ paused.pc = 0x202 := by
    decide +kernel
  obtain ⟨hpc, -⟩ := (cycle_goes_on m).1 hrunning hsuccess
  obtain ⟨-, hpaused⟩ := (cycle_goes_on paused).2 5 hwaiting
  exact ⟨hrunning, hsuccess, hpc.trans haddress, hwaiting, hpaused, hbehind⟩

end ChipEight.Machine
