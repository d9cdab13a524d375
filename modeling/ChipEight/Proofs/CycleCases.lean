import ChipEight.Machine.Cycle

/-!
# What a cycle can do

`Machine.execute` checks and acts at once. This file takes the two apart: `refusal` is the fault
with which an instruction is refused, if it is, and `effect` is the machine after an instruction
that is not refused. `execute_eq` puts them together again.

A cycle then ends in one of five ways, which `Machine.cycleCase` lists with everything that is
known in each of them: the machine was paused, nothing could be fetched, the word could not be read,
the instruction was refused, or it took effect. What holds of every cycle is proved by going
through these cases; what an instruction does to one part of the machine is read off `effect`.
-/

namespace ChipEight.Machine

/-- The fault of an access to the `n` bytes at the index, if they do not fit. -/
def rangeFault (m : Machine) (n : Nat) : Option Fault :=
  if Memory.Spans m.index.toNat n then none else some (m.indexFault n)

/-- The fault with which an instruction is refused. -/
def refusal (m : Machine) : Instruction → Option Fault
  | .ret => if m.stack = [] then some (.stackUnderflow m.fetchedAt) else none
  | .call _ =>
    match m.config.stackLimit with
    | none => none
    | some limit => if limit ≤ m.depth then some (.stackOverflow m.fetchedAt limit) else none
  | .draw _ _ rows => m.rangeFault rows
  | .storeDecimal _ => m.rangeFault 3
  | .storeRegisters x | .loadRegisters x => m.rangeFault (x + 1)
  | _ => none

/-- The machine after an instruction that is not refused. -/
def effect (m : Machine) : Instruction → Machine
  | .clear => { m with screen := m.screen.clear }
  | .ret => { m with pc := m.stack.headD m.pc, stack := m.stack.tail }
  | .jump target => { m with pc := UInt16.ofNat target }
  | .call target => { m with pc := UInt16.ofNat target, stack := m.pc :: m.stack }
  | .skipIf condition => { m with pc := if m.Holds condition then m.pc + 2 else m.pc }
  | .setByte x byte => m.setV x byte
  | .addByte x byte => m.setV x (m.v x + byte)
  | .alu op x y =>
    { m with registers := m.registers.combine m.config.normalizeShiftFlag op x y }
  | .setIndex target => { m with index := UInt16.ofNat target }
  | .jumpOffset base => { m with pc := UInt16.ofNat (base + (m.v Registers.first).toNat) }
  | .random x mask => { m with random := m.random.next.2 }.setV x (m.random.next.1 &&& mask)
  | .draw x y rows => m.draw x y rows
  | .readDelay x => m.setV x m.delay
  | .waitKey x => { m with keypad := m.keypad.take.2, waiting := some x }
  | .setDelay x => { m with delay := m.v x }
  | .setSound x => { m with sound := m.v x }
  | .addIndex x => { m with index := m.index + (m.v x).toUInt16 }
  | .pointAtDigit x => { m with index := Font.address (m.v x) }
  | .storeDecimal x =>
    { m with memory := m.memory.write m.index.toNat (decimalDigits (m.v x)) }
  | .storeRegisters x =>
    { m with memory := m.memory.write m.index.toNat (m.registers.upTo x) }
  | .loadRegisters x =>
    { m with registers := m.registers.fill x fun k => m.memory.read (m.index.toNat + k) }

/-- An instruction is executed by refusing it or by letting it take effect. -/
theorem execute_eq (m : Machine) (i : Instruction) :
    m.execute i =
      match m.refusal i with
      | some fault => .error fault
      | none => .ok (m.effect i) := by
  -- Sprites and blocks are refused in the same way: by one check of their whole range.
  have hrange : ∀ (n : Nat) (m' : Machine),
      (if Memory.Spans m.index.toNat n then .ok m' else .error (m.indexFault n)) =
        match m.rangeFault n with
        | some fault => Except.error fault
        | none => .ok m' := by
    intro n m'
    unfold rangeFault
    split <;> rfl
  cases i with
  | ret =>
    unfold execute refusal effect
    cases m.stack <;> rfl
  | call target =>
    unfold execute refusal effect
    cases m.config.stackLimit with
    | none => rfl
    | some limit =>
      dsimp only
      split <;> rfl
  | skipIf condition =>
    unfold execute refusal effect
    dsimp only
    split <;> rfl
  | draw x y rows => exact hrange rows (m.draw x y rows)
  | storeDecimal x => exact hrange 3 _
  | storeRegisters x => exact hrange (x + 1) _
  | loadRegisters x => exact hrange (x + 1) _
  | _ => rfl

/-! ### The parts of the machine after an instruction -/

section
variable (m : Machine) (i : Instruction)

@[simp] theorem config_effect : (m.effect i).config = m.config := by
  cases i <;> rfl

@[simp] theorem fetchedAt_effect : (m.effect i).fetchedAt = m.fetchedAt := by
  cases i <;> rfl

/-- Returns, jumps and calls go elsewhere, and a skip leaves out an instruction. -/
theorem pc_effect :
    (m.effect i).pc =
      match i with
      | .ret => m.stack.headD m.pc
      | .jump target | .call target => UInt16.ofNat target
      | .skipIf condition => if m.Holds condition then m.pc + 2 else m.pc
      | .jumpOffset base => UInt16.ofNat (base + (m.v Registers.first).toNat)
      | _ => m.pc := by
  cases i <;> rfl

/-- Only calls and returns change the stack, each by one entry. -/
theorem stack_effect :
    (m.effect i).stack =
      match i with
      | .ret => m.stack.tail
      | .call _ => m.pc :: m.stack
      | _ => m.stack := by
  cases i <;> rfl

end

/-! ### The cases of a cycle -/

/-- The machine after the word at `pc` was fetched. -/
def fetched (m : Machine) : Machine :=
  { m with fetchedAt := m.pc, pc := m.pc + 2 }

/-- The word at `pc`. -/
def nextWord (m : Machine) : UInt16 :=
  m.memory.word m.pc.toNat

/-- The next cycle reads the instruction `i` and executes it. -/
structure Executes (m : Machine) (i : Instruction) : Prop where
  /-- The machine is not paused. -/
  running : m.waiting = none
  /-- The word at `pc` lies in memory. -/
  inside : m.pc.toNat + 1 < 4096
  /-- The word is the one of `i`. -/
  reads : Instruction.decode? m.nextWord = some i

/-- Where the word of an instruction is next, the instruction is executed. -/
theorem executes_of_nextWord {m : Machine} {i : Instruction} (hrunning : m.waiting = none)
    (hinside : m.pc.toNat + 1 < 4096) (hword : m.nextWord = i.encode) : m.Executes i := by
  refine ⟨hrunning, hinside, ?_⟩
  rw [hword]
  exact Instruction.decode?_encode i

/-- A word that is fetched moves `pc` by two, without wrapping around. -/
theorem toNat_pc_fetched {m : Machine} (h : m.pc.toNat + 1 < 4096) :
    m.fetched.pc.toNat = m.pc.toNat + 2 := by
  have hpc : m.fetched.pc.toNat = (m.pc.toNat + 2) % 65536 := UInt16.toNat_add m.pc 2
  omega

/-- The ways in which a cycle of `m` ends. -/
inductive CycleCase (m : Machine) : Prop where
  /-- The machine waits for a key. -/
  | paused (x : Fin 16) (hwaiting : m.waiting = some x) (hcycle : m.cycle = m.awaitKey x)
  /-- The word at `pc` reaches past the end of memory. -/
  | unfetched (hrunning : m.waiting = none) (hpc : 4096 ≤ m.pc.toNat + 1)
      (hcycle : m.cycle = ⟨m, some (.memoryOutOfBounds (m.pc.toNat + 1)), []⟩)
  /-- The word at `pc` is no instruction. -/
  | unreadable (hrunning : m.waiting = none) (hpc : m.pc.toNat + 1 < 4096)
      (hword : Instruction.decode? m.nextWord = none)
      (hcycle : m.cycle = ⟨m.fetched, some (.unknownOpcode m.nextWord m.pc), []⟩)
  /-- The instruction at `pc` is refused. -/
  | refused (i : Instruction) (fault : Fault) (hexec : m.Executes i)
      (hrefusal : m.fetched.refusal i = some fault)
      (hcycle : m.cycle = ⟨m.fetched, some fault, [.executing m.pc m.nextWord i]⟩)
  /-- The instruction at `pc` takes effect. -/
  | executed (i : Instruction) (hexec : m.Executes i) (hrefusal : m.fetched.refusal i = none)
      (hcycle : m.cycle =
        ⟨(m.fetched.effect i).tickTimers, none, .executing m.pc m.nextWord i :: notices i⟩)

theorem cycle_of_paused {m : Machine} {x : Fin 16} (hwaiting : m.waiting = some x) :
    m.cycle = m.awaitKey x := by
  rw [cycle, hwaiting]

theorem cycle_of_running {m : Machine} (hrunning : m.waiting = none) : m.cycle = m.step := by
  rw [cycle, hrunning]

theorem cycle_of_unfetched {m : Machine} (hrunning : m.waiting = none)
    (hpc : 4096 ≤ m.pc.toNat + 1) :
    m.cycle = ⟨m, some (.memoryOutOfBounds (m.pc.toNat + 1)), []⟩ := by
  rw [cycle_of_running hrunning, step, fetch?_eq_none_iff.2 hpc]

theorem cycle_of_unreadable {m : Machine} (hrunning : m.waiting = none)
    (hpc : m.pc.toNat + 1 < 4096) (hword : Instruction.decode? m.nextWord = none) :
    m.cycle = ⟨m.fetched, some (.unknownOpcode m.nextWord m.pc), []⟩ := by
  have hreads : Instruction.decode? (m.memory.word m.pc.toNat) = none := hword
  rw [cycle_of_running hrunning, step, fetch?_of_lt hpc]
  dsimp only
  rw [hreads]
  rfl

/-- The cycle of a machine that executes `i`, by whether `i` is refused. -/
theorem cycle_of_executes {m : Machine} {i : Instruction} (h : m.Executes i) :
    m.cycle =
      match m.fetched.refusal i with
      | some fault => ⟨m.fetched, some fault, [.executing m.pc m.nextWord i]⟩
      | none =>
        ⟨(m.fetched.effect i).tickTimers, none, .executing m.pc m.nextWord i :: notices i⟩ := by
  have hreads : Instruction.decode? (m.memory.word m.pc.toNat) = some i := h.reads
  rw [cycle_of_running h.running, step, fetch?_of_lt h.inside]
  dsimp only
  rw [hreads]
  dsimp only
  -- What `fetch?` leaves is `fetched` written out.
  rw [show ({ m with fetchedAt := m.pc, pc := m.pc + 2 } : Machine) = m.fetched from rfl,
    execute_eq]
  cases m.fetched.refusal i <;> rfl

/-- Every cycle ends in one of the five ways. -/
theorem cycleCase (m : Machine) : CycleCase m := by
  cases hwaiting : m.waiting with
  | some x => exact .paused x hwaiting (cycle_of_paused hwaiting)
  | none =>
    -- the word at `pc` decides, if there is one
    rcases Nat.lt_or_ge (m.pc.toNat + 1) 4096 with hpc | hpc
    · cases hword : Instruction.decode? m.nextWord with
      | none => exact .unreadable hwaiting hpc hword (cycle_of_unreadable hwaiting hpc hword)
      | some i =>
        have hexec : m.Executes i := ⟨hwaiting, hpc, hword⟩
        have hcycle := cycle_of_executes hexec
        cases hrefusal : m.fetched.refusal i with
        | some fault =>
          rw [hrefusal] at hcycle
          exact .refused i fault hexec hrefusal hcycle
        | none =>
          rw [hrefusal] at hcycle
          exact .executed i hexec hrefusal hcycle
    · exact .unfetched hwaiting hpc (cycle_of_unfetched hwaiting hpc)

end ChipEight.Machine
