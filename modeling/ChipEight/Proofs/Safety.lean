import ChipEight.Proofs.Bounds
import ChipEight.Proofs.Checked.Agreement

/-!
# Safety of cycles

Two facts about a single cycle that a program cannot get around.

* `reachable_bounded_checked`: after every run of a new machine its addresses are within the bounds
  of `Bounded`, and the next cycle uses no index outside its range and loses no bit of a number.
* `failed_cycle_atomic`: a cycle that fails changes nothing but `pc` and the address of the
  instruction, whatever the machine and the fault.
-/

namespace ChipEight.Machine

/-- Every run of a new machine stays within the bounds, and the next cycle passes all checks. -/
theorem reachable_bounded_checked (config : Config) (entropy : Vector UInt32 8)
    (actions : List Action) :
    let m := (Machine.new config entropy).after actions
    m.config = config ∧ m.Bounded ∧ Checked.cycle.run m = Checked.ofReport m.cycle ∧
      ∀ m' : Machine, Checked.cycle.run m ≠ .error .violation m' := by
  intro m
  -- That no check fails holds of every machine; the bounds take the run.
  have hrun := Checked.run_cycle m
  refine ⟨config_after _ actions, bounded_after config entropy actions, hrun,
    fun m' hviolation => ?_⟩
  rw [hrun, Checked.ofReport] at hviolation
  split at hviolation <;> cases hviolation

/-! ### Cycles that fail -/

/-- Everything but `pc` and the address of the last instruction is the same in both machines. -/
structure Untouched (m m' : Machine) : Prop where
  config : m'.config = m.config
  memory : m'.memory = m.memory
  registers : m'.registers = m.registers
  index : m'.index = m.index
  stack : m'.stack = m.stack
  delay : m'.delay = m.delay
  sound : m'.sound = m.sound
  waiting : m'.waiting = m.waiting
  screen : m'.screen = m.screen
  keypad : m'.keypad = m.keypad
  random : m'.random = m.random

/-- Where a failing cycle fails: at the fetch, at the word or at the instruction. -/
inductive FailurePoint (m : Machine) (fault : Fault) : Prop where
  /-- The word at `pc` reaches past the end of memory, and `pc` stays. -/
  | fetch (hpc : 4096 ≤ m.pc.toNat + 1) (hfault : fault = .memoryOutOfBounds (m.pc.toNat + 1))
      (hstay : m.cycle.machine.pc = m.pc)
  /-- The word is no instruction, and `pc` is behind it. -/
  | word (hpc : m.pc.toNat + 1 < 4096) (hword : Instruction.decode? m.nextWord = none)
      (hfault : fault = .unknownOpcode m.nextWord m.pc)
      (hmove : m.cycle.machine.pc.toNat = m.pc.toNat + 2)
  /-- The instruction is refused, and `pc` is behind it. -/
  | instruction (i : Instruction) (hexec : m.Executes i)
      (hfault : m.fetched.refusal i = some fault)
      (hmove : m.cycle.machine.pc.toNat = m.pc.toNat + 2)

/-- A cycle that fails leaves everything but `pc` as it was. -/
theorem failed_cycle_atomic (m : Machine) (fault : Fault) (h : m.cycle.fault = some fault) :
    Checked.cycle.run m = .error (.fault fault) m.cycle.machine ∧
      Untouched m m.cycle.machine ∧ FailurePoint m fault := by
  have hrun : Checked.cycle.run m = .error (.fault fault) m.cycle.machine := by
    rw [Checked.run_cycle, Checked.ofReport, h]
  refine ⟨hrun, ?_⟩
  cases m.cycleCase with
  | paused x hwaiting hcycle =>
    -- A machine that waits for a key never fails.
    rw [hcycle, awaitKey] at h
    split at h <;> cases h
  | unfetched hrunning hpc hcycle =>
    rw [hcycle] at h ⊢
    obtain rfl : _ = fault := Option.some.inj h
    refine ⟨⟨rfl, rfl, rfl, rfl, rfl, rfl, rfl, rfl, rfl, rfl, rfl⟩, .fetch hpc rfl ?_⟩
    rw [hcycle]
  | unreadable hrunning hpc hword hcycle =>
    rw [hcycle] at h ⊢
    obtain rfl : _ = fault := Option.some.inj h
    refine ⟨⟨rfl, rfl, rfl, rfl, rfl, rfl, rfl, rfl, rfl, rfl, rfl⟩, .word hpc hword rfl ?_⟩
    rw [hcycle]
    exact toNat_pc_fetched hpc
  | refused i fault' hexec hrefusal hcycle =>
    -- Whatever the instruction, it was refused before it did anything to the fetched machine.
    rw [hcycle] at h ⊢
    obtain rfl : fault' = fault := Option.some.inj h
    refine ⟨⟨rfl, rfl, rfl, rfl, rfl, rfl, rfl, rfl, rfl, rfl, rfl⟩,
      .instruction i hexec hrefusal ?_⟩
    rw [hcycle]
    exact toNat_pc_fetched hexec.inside
  | executed i hexec hrefusal hcycle =>
    rw [hcycle] at h
    cases h

/-- The digits of a number would reach past the end of memory: none of the three is stored. -/
theorem failed_cycle_atomic_storeDecimal :
    let m : Machine :=
      { (Machine.new {} (Vector.replicate 8 0)).act (.load (Instruction.storeDecimal 3).bytes) with
        index := 0xFFE }
    m.cycle.fault = some (.memoryOutOfBounds 0x1000) ∧
      Checked.cycle.run m = .error (.fault (.memoryOutOfBounds 0x1000)) m.cycle.machine ∧
      Untouched m m.cycle.machine ∧ FailurePoint m (.memoryOutOfBounds 0x1000) := by
  intro m
  have hloaded := executes_load {} (Vector.replicate 8 0) (.storeDecimal 3)
  have hexec : m.Executes (.storeDecimal 3) := ⟨hloaded.running, hloaded.inside, hloaded.reads⟩
  have hrefusal : m.fetched.refusal (.storeDecimal 3) = some (.memoryOutOfBounds 0x1000) := rfl
  have hfault : m.cycle.fault = some (.memoryOutOfBounds 0x1000) := by
    rw [cycle_of_executes hexec, hrefusal]
  exact ⟨hfault, failed_cycle_atomic m _ hfault⟩

end ChipEight.Machine
