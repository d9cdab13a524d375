import ChipEight.Proofs.StraightLine.Meaning
import Mathlib.Data.List.GetD

/-!
# Straight-line code on the machine

A straight-line program that was loaded into a new machine is executed instruction by instruction,
and what the machine holds at the end is the meaning of the program.

* `Machine.Computed` relates a machine to the one at the start of a program. It is kept by the cycle
  of one more instruction (`Machine.Computed.cycle`), hence along the program
  (`Machine.computed_cycles`).
* `Machine.straight_line_computes_meaning` puts this together with the loading of the program.
-/

namespace ChipEight

/-- The bytes of a memory with the font and a program, up to the end of the program. -/
def Memory.image (program : List Instruction) : List UInt8 :=
  Font.sprites ++ List.replicate 432 0 ++ Instruction.assemble program

namespace Machine

theorem read_bootMemory (address : Nat) :
    bootMemory.read address = Font.sprites.getD address 0 := by
  rw [bootMemory, Memory.read_write, Memory.read_zeroed]
  split
  · rfl
  · next houtside =>
    have hbehind : Font.sprites.length ≤ address := by
      rw [Font.length_sprites]
      unfold Font.entry at houtside
      omega
    rw [List.getD_eq_default _ _ hbehind]

/-- The memory of a new machine with a program in it. -/
theorem read_bootMemory_write {program : List Instruction} (hfits : program.length ≤ 1792)
    (address : Nat) :
    (bootMemory.write Memory.programStart (Instruction.assemble program)).read address =
      (Memory.image program).getD address 0 := by
  have hlength := Instruction.length_assemble program
  have hfont := Font.length_sprites
  have hgap : (Font.sprites ++ List.replicate 432 (0 : UInt8)).length = Memory.programStart := by
    rw [List.length_append, hfont, List.length_replicate]
    rfl
  have hstart : Memory.programStart = 0x200 := rfl
  rw [Memory.image]
  rcases Nat.lt_or_ge address Memory.programStart with hlow | hhigh
  · rw [Memory.read_write_outside _ (.inl hlow), read_bootMemory,
      List.getD_append _ _ _ _ (by omega)]
    rcases Nat.lt_or_ge address Font.sprites.length with hsprite | hzero
    · rw [List.getD_append _ _ _ _ hsprite]
    · -- Behind the font there are zeros up to the program.
      rw [List.getD_append_right _ _ _ _ hzero, List.getD_eq_default _ _ hzero,
        List.getD_replicate 0 (by omega)]
  · -- What the program leaves free of the rest holds zeros as well.
    have hzero : bootMemory.read address = 0 := by
      rw [read_bootMemory, List.getD_eq_default _ _ (by omega)]
    rw [Memory.read_write, hzero, List.getD_append_right _ _ _ _ (by omega), hgap]
    split
    · rfl
    · next houtside => rw [List.getD_eq_default _ _ (by omega)]

/-- The machine `m` has executed the straight-line `program` since it was `start`: it holds the
numbers that the program computes and is otherwise still the same, behind the program. -/
structure Computed (start : Machine) (program : List Instruction) (m : Machine) : Prop where
  /-- The numbers are those that the program computes. -/
  values : m.values = start.values.after start.config.normalizeShiftFlag program
  /-- What follows the program is next. -/
  pc : m.pc.toNat = start.pc.toNat + 2 * program.length
  config : m.config = start.config
  memory : m.memory = start.memory
  waiting : m.waiting = start.waiting
  stack : m.stack = start.stack
  screen : m.screen = start.screen

variable {start m : Machine} {program : List Instruction} {i : Instruction}

/-- A straight-line instruction changes nothing but numbers. -/
theorem effect_of_isStraight (h : i.IsStraight) :
    m.effect i =
      { m with
        registers := (m.effect i).registers
        index := (m.effect i).index
        delay := (m.effect i).delay
        sound := (m.effect i).sound } := by
  cases h <;> rfl

/-- A straight-line instruction is never refused. -/
theorem refusal_of_isStraight (h : i.IsStraight) : m.refusal i = none := by
  cases h <;> rfl

theorem computed_nil (m : Machine) : m.Computed [] m :=
  ⟨rfl, rfl, rfl, rfl, rfl, rfl, rfl⟩

/-- One more instruction succeeds and does what the table says. -/
theorem Computed.cycle (h : start.Computed program m) (hexec : m.Executes i)
    (hstraight : i.IsStraight) :
    m.cycle.fault = none ∧ start.Computed (program ++ [i]) m.cycle.machine := by
  have hcycle := cycle_of_executes hexec
  rw [refusal_of_isStraight hstraight] at hcycle
  have heffect := effect_of_isStraight (m := m.fetched) hstraight
  rw [hcycle]
  refine ⟨rfl, ?_, ?_, ?_, ?_, ?_, ?_, ?_⟩
  · -- The fetch touches no number, so the table applies to those from before it.
    have hfetched : m.fetched.values = m.values := rfl
    have hconfig : m.fetched.config = m.config := rfl
    rw [values_tickTimers, values_effect hstraight, hfetched, hconfig, h.config, h.values,
      Values.after_concat]
  · have hpc : (m.fetched.effect i).pc = m.fetched.pc := by rw [heffect]
    show (m.fetched.effect i).pc.toNat = _
    rw [hpc, toNat_pc_fetched hexec.inside, h.pc, List.length_append, List.length_singleton]
    omega
  · exact (congrArg Machine.config heffect).trans h.config
  · exact (congrArg Machine.memory heffect).trans h.memory
  · exact (congrArg Machine.waiting heffect).trans h.waiting
  · exact (congrArg Machine.stack heffect).trans h.stack
  · exact (congrArg Machine.screen heffect).trans h.screen

/-- A new machine with `program` in its memory. -/
def withProgram (config : Config) (entropy : Vector UInt32 8) (program : List Instruction) :
    Machine :=
  { Machine.new config entropy with
    memory := bootMemory.write Memory.programStart (Instruction.assemble program) }

theorem load_assemble (config : Config) (entropy : Vector UInt32 8)
    (hfits : program.length ≤ 1792) :
    (Machine.new config entropy).load (Instruction.assemble program) =
      ⟨withProgram config entropy program, none,
        [.loaded (Instruction.assemble program).length Memory.programStart]⟩ := by
  have hlength := Instruction.length_assemble program
  exact load_of_le _ (by omega)

theorem values_withProgram (config : Config) (entropy : Vector UInt32 8)
    (program : List Instruction) : (withProgram config entropy program).values = Values.zeroed :=
  Values.ext (funext fun x => congrArg UInt8.toNat (Registers.get_zeroed x)) rfl rfl rfl

/-- Every part of a straight-line program succeeds and does what the table says. -/
theorem computed_cycles (config : Config) (entropy : Vector UInt32 8)
    (hstraight : ∀ i ∈ program, i.IsStraight) (hfits : program.length ≤ 1792) {n : Nat}
    (hn : n ≤ program.length) :
    ((withProgram config entropy program).cycles n).fault = none ∧
      ((withProgram config entropy program).cycles n).ran = n ∧
      (withProgram config entropy program).Computed (program.take n)
        ((withProgram config entropy program).cycles n).machine := by
  induction n with
  | zero => exact ⟨rfl, rfl, computed_nil _⟩
  | succ n ih =>
    obtain ⟨hfault, hran, hcomputed⟩ := ih (Nat.le_of_succ_le hn)
    have hi : program[n]? = some program[n] := List.getElem?_eq_getElem hn
    have hpc :
        ((withProgram config entropy program).cycles n).machine.pc.toNat = 0x200 + 2 * n := by
      rw [hcomputed.pc, List.length_take_of_le (Nat.le_of_succ_le hn)]
      rfl
    -- The program is still in memory, since nothing that was executed changes it.
    have hexec := executes_of_write hcomputed.waiting hpc hcomputed.memory hfits hi
    obtain ⟨hsuccess, hnext⟩ := hcomputed.cycle hexec (hstraight _ (List.getElem_mem hn))
    obtain ⟨hmachine, hran', hfault'⟩ := cycles_succ_last hfault hsuccess
    refine ⟨hfault', by rw [hran', hran], ?_⟩
    rw [hmachine, List.take_add_one, hi]
    exact hnext

/-- Loads a program into a new machine and lets as many cycles pass as the program has
instructions. -/
def runProgram (config : Config) (entropy : Vector UInt32 8) (program : List Instruction) :
    Stretch :=
  ((Machine.new config entropy).load (Instruction.assemble program)).machine.cycles program.length

/-- A straight-line program is executed to its end and has done what the table says. -/
theorem computed_runProgram (config : Config) (entropy : Vector UInt32 8)
    (hstraight : ∀ i ∈ program, i.IsStraight) (hfits : program.length ≤ 1792) :
    (runProgram config entropy program).fault = none ∧
      (runProgram config entropy program).ran = program.length ∧
      (withProgram config entropy program).Computed program
        (runProgram config entropy program).machine := by
  have hcomputed := computed_cycles config entropy hstraight hfits (Nat.le_refl _)
  rw [List.take_length] at hcomputed
  rw [runProgram, load_assemble config entropy hfits]
  exact hcomputed

/-- A straight-line program that is loaded into a new machine runs to its end, and leaves behind
what it means and nothing else. -/
theorem straight_line_computes_meaning (config : Config) (entropy : Vector UInt32 8)
    (program : List Instruction) (hstraight : ∀ i ∈ program, i.IsStraight)
    (hfits : program.length ≤ 1792) :
    let run := runProgram config entropy program
    ((Machine.new config entropy).load (Instruction.assemble program)).fault = none ∧
      run.fault = none ∧ run.ran = program.length ∧
      run.machine.values = Values.zeroed.after config.normalizeShiftFlag program ∧
      run.machine.pc.toNat = 0x200 + 2 * program.length ∧ run.machine.stack = [] ∧
      run.machine.screen = .blank ∧
      ∀ address, run.machine.memory.read address = (Memory.image program).getD address 0 := by
  intro run
  obtain ⟨hfault, hran, hcomputed⟩ := computed_runProgram config entropy hstraight hfits
  refine ⟨?_, hfault, hran, ?_, hcomputed.pc, hcomputed.stack, hcomputed.screen, fun address => ?_⟩
  · rw [load_assemble config entropy hfits]
  · rw [hcomputed.values, values_withProgram]
    rfl
  · rw [hcomputed.memory]
    exact read_bootMemory_write hfits address

/-- A sum that replaces its carry in the flag register, and a timer that has counted down once when
it is read. -/
theorem straight_line_computes_meaning_carry :
    let program : List Instruction :=
      [.setByte 0xF 0xC8, .setByte 1 0x85, .alu .add 0xF 1, .setDelay 1, .readDelay 2]
    let values := Values.zeroed.after false program
    (∀ i ∈ program, i.IsStraight) ∧ program.length ≤ 1792 ∧
      (runProgram {} (Vector.replicate 8 0) program).fault = none ∧
      (runProgram {} (Vector.replicate 8 0) program).machine.values = values ∧
      values.v 0xF = 0x4D ∧ values.v 2 = 0x84 := by
  intro program values
  have hstraight : ∀ i ∈ program, i.IsStraight := by decide
  have hfits : program.length ≤ 1792 := by decide
  obtain ⟨-, hfault, -, hvalues, -⟩ :=
    straight_line_computes_meaning {} (Vector.replicate 8 0) program hstraight hfits
  exact ⟨hstraight, hfits, hfault, hvalues, rfl, rfl⟩

/-- A machine that normalizes the flag of a left shift does not leave the bit where it stood: the
table for the other machines is not the one for this machine. -/
theorem shiftLeft_flag_normalized :
    let program : List Instruction := [.setByte 0 0x80, .alu .shiftLeft 0 0]
    let run := runProgram { normalizeShiftFlag := true } (Vector.replicate 8 0) program
    (∀ i ∈ program, i.IsStraight) ∧ program.length ≤ 1792 ∧
      run.machine.values.v Registers.flag = 1 ∧
      (Values.zeroed.after false program).v Registers.flag = 0x80 ∧
      run.machine.values ≠ Values.zeroed.after false program := by
  intro program run
  have hstraight : ∀ i ∈ program, i.IsStraight := by decide
  have hfits : program.length ≤ 1792 := by decide
  obtain ⟨-, -, hcomputed⟩ :=
    computed_runProgram { normalizeShiftFlag := true } (Vector.replicate 8 0) hstraight hfits
  have hone : run.machine.values.v Registers.flag = 1 := by
    rw [hcomputed.values, values_withProgram]
    rfl
  have hupper : (Values.zeroed.after false program).v Registers.flag = 0x80 := rfl
  refine ⟨hstraight, hfits, hone, hupper, fun hsame => ?_⟩
  rw [hsame, hupper] at hone
  cases hone

end Machine

end ChipEight
