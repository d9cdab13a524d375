import ChipEight.Proofs.Runs

/-!
# Footprints

What each operation of a machine may change, and that it leaves everything else alone.

* `Instruction.Writes`, `Instruction.Stores`, `Instruction.Draws` and `Instruction.MovesIndex` say
  which registers, which bytes of memory, and whether the pixels and the index belong to the
  footprint of an instruction.
* `Machine.Footprint` puts them together for a cycle that executes an instruction.
  `Machine.PauseFootprint` is the same for a cycle of a machine that waits for a key, and
  `Machine.LoadFootprint` for the loading of a program.
* `Machine.operations_keep_to_footprint` is the statement for all cycles and loads.
-/

namespace ChipEight

/-- The operation puts something into the flag register. -/
def AluOp.SetsFlag : AluOp → Prop
  | .add | .subtract | .shiftRight | .subtractFrom | .shiftLeft => True
  | .assign | .or | .and | .xor => False

namespace Instruction

/-- The instruction may change register `y`. -/
def Writes (y : Fin 16) : Instruction → Prop
  | .setByte x _ | .addByte x _ | .random x _ | .readDelay x => y = x
  | .alu op x _ => y = x ∨ (y = Registers.flag ∧ op.SetsFlag)
  | .draw _ _ _ => y = Registers.flag
  | .loadRegisters x => y ≤ x
  | _ => False

/-- The instruction may change the byte at `address` when the index is `index`. -/
def Stores (index address : Nat) : Instruction → Prop
  | .storeDecimal _ => index ≤ address ∧ address ≤ index + 2
  | .storeRegisters x => index ≤ address ∧ address ≤ index + x
  | _ => False

/-- The instruction may change pixels. -/
def Draws : Instruction → Prop
  | .clear | .draw _ _ _ => True
  | _ => False

/-- The instruction may change the index. -/
def MovesIndex : Instruction → Prop
  | .setIndex _ | .addIndex _ | .pointAtDigit _ => True
  | _ => False

/-- The instruction starts to wait for a key. -/
def Waits : Instruction → Prop
  | .waitKey _ => True
  | _ => False

/-- What the instruction does to the stack: a call puts `behind`, the address behind it, on top, and
a return takes `target`, the address where it goes on, off the top. -/
def MovesStack (behind target : UInt16) (before after : List UInt16) : Instruction → Prop
  | .call _ => after = behind :: before
  | .ret => before = target :: after
  | _ => after = before

/-- The number of random bytes that the instruction takes. -/
def randomBytes : Instruction → Nat
  | .random _ _ => 1
  | _ => 0

end Instruction

/-- An operation on two registers changes the first one and, if it sets a flag, the flag
register. -/
theorem Registers.get_combine_of_not (r : Registers) {normalize : Bool} {op : AluOp}
    {x y k : Fin 16} (h : ¬ (k = x ∨ (k = Registers.flag ∧ op.SetsFlag))) :
    (r.combine normalize op x y).get k = r.get k := by
  have hx : k ≠ x := fun hk => h (.inl hk)
  have hflag : op.SetsFlag → k ≠ Registers.flag := fun hop hk => h (.inr ⟨hk, hop⟩)
  cases op with
  | assign | or | and | xor => exact get_set_of_ne r _ hx
  | add | subtract | shiftRight | subtractFrom | shiftLeft =>
    -- the result goes on top of the flag
    exact (get_set_of_ne _ _ hx).trans (get_set_of_ne r _ (hflag trivial))

namespace Machine

variable {m : Machine} {i : Instruction}

/-! ### What an instruction leaves alone -/

theorem isLit_effect (h : ¬ i.Draws) (c : Cell) :
    (m.effect i).screen.isLit c = m.screen.isLit c := by
  cases i with
  | clear | draw => exact absurd trivial h
  -- Unfolding leaves the registers alone, which `rfl` would compare.
  | loadRegisters => simp only [effect]
  | _ => rfl

theorem presented_effect (m : Machine) (i : Instruction) :
    (m.effect i).screen.presented = m.screen.presented := by
  cases i with
  | clear => exact Screen.presented_clear m.screen
  | draw x y rows => exact Screen.presented_toggleAll _ _
  | loadRegisters => simp only [effect]
  | _ => rfl

theorem read_effect {address : Nat} (h : ¬ i.Stores m.index.toNat address) :
    (m.effect i).memory.read address = m.memory.read address := by
  cases i with
  | storeDecimal x =>
    have hout : ¬ (m.index.toNat ≤ address ∧ address ≤ m.index.toNat + 2) := h
    have hlength : (decimalDigits (m.v x)).length = 3 := rfl
    exact Memory.read_write_outside _ (by omega)
  | storeRegisters x =>
    have hout : ¬ (m.index.toNat ≤ address ∧ address ≤ m.index.toNat + x) := h
    have hlength : (m.registers.upTo x).length = x + 1 := Registers.length_upTo m.registers x
    exact Memory.read_write_outside _ (by omega)
  | loadRegisters => simp only [effect]
  | _ => rfl

theorem get_effect {y : Fin 16} (h : ¬ i.Writes y) :
    (m.effect i).registers.get y = m.registers.get y := by
  cases i with
  | setByte x _ | addByte x _ | random x _ | readDelay x =>
    exact Registers.get_set_of_ne m.registers _ h
  | alu op x z => exact Registers.get_combine_of_not m.registers h
  | draw x z rows => exact Registers.get_set_of_ne m.registers _ h
  | loadRegisters x =>
    have hout : ¬ y ≤ x := h
    simp only [effect, Registers.get_fill, if_neg hout]
  | _ => rfl

theorem index_effect (h : ¬ i.MovesIndex) : (m.effect i).index = m.index := by
  cases i with
  | setIndex | addIndex | pointAtDigit => exact absurd trivial h
  | loadRegisters => simp only [effect]
  | _ => rfl

/-- The delay timer after an instruction, before it counts down. -/
def delayAfter (m : Machine) : Instruction → UInt8
  | .setDelay x => m.v x
  | _ => m.delay

/-- The sound timer after an instruction, before it counts down. -/
def soundAfter (m : Machine) : Instruction → UInt8
  | .setSound x => m.v x
  | _ => m.sound

theorem delay_effect (m : Machine) (i : Instruction) : (m.effect i).delay = m.delayAfter i := by
  cases i with
  | loadRegisters => simp only [effect, delayAfter]
  | _ => rfl

theorem sound_effect (m : Machine) (i : Instruction) : (m.effect i).sound = m.soundAfter i := by
  cases i with
  | loadRegisters => simp only [effect, soundAfter]
  | _ => rfl

theorem waiting_effect (h : ¬ i.Waits) : (m.effect i).waiting = m.waiting := by
  cases i with
  | waitKey => exact absurd trivial h
  | loadRegisters => simp only [effect]
  | _ => rfl

theorem latch_effect (h : ¬ i.Waits) : (m.effect i).keypad.latch = m.keypad.latch := by
  cases i with
  | waitKey => exact absurd trivial h
  | loadRegisters => simp only [effect]
  | _ => rfl

theorem held_effect (m : Machine) (i : Instruction) :
    (m.effect i).keypad.held = m.keypad.held := by
  cases i with
  | loadRegisters => simp only [effect]
  | _ => rfl

theorem random_effect (m : Machine) (i : Instruction) :
    (m.effect i).random = { m.random with position := m.random.position + i.randomBytes } := by
  cases i with
  | loadRegisters => simp only [effect, Instruction.randomBytes, Nat.add_zero]
  | _ => rfl

/-! ### Cycles and loads -/

/-- The machine `m'` differs from `m` only in what a successful cycle with the instruction `i` may
change, apart from `pc` and the address of the last instruction. -/
structure Footprint (m : Machine) (i : Instruction) (m' : Machine) : Prop where
  /-- The choices made at the start stay. -/
  config : m'.config = m.config
  /-- Pixels change only when the instruction draws. -/
  pixels : ¬ i.Draws → ∀ c, m'.screen.isLit c = m.screen.isLit c
  /-- The screen was not presented. -/
  presented : m'.screen.presented = m.screen.presented
  /-- A call puts one address on the stack and a return takes one off. -/
  stack : i.MovesStack (m.pc + 2) m'.pc m.stack m'.stack
  /-- Memory changes only where the instruction stores something. -/
  memory : ∀ address, ¬ i.Stores m.index.toNat address →
    m'.memory.read address = m.memory.read address
  /-- The index changes only when the instruction moves it. -/
  index : ¬ i.MovesIndex → m'.index = m.index
  /-- Registers change only when the instruction writes them. -/
  registers : ∀ y, ¬ i.Writes y → m'.registers.get y = m.registers.get y
  /-- The delay timer counts down once, from a new value only if it was set. -/
  delay : m'.delay = countDown (m.delayAfter i)
  /-- The sound timer counts down once, from a new value only if it was set. -/
  sound : m'.sound = countDown (m.soundAfter i)
  /-- Only one instruction starts to wait. -/
  waiting : ¬ i.Waits → m'.waiting = m.waiting
  /-- Only the same instruction touches the latch. -/
  latch : ¬ i.Waits → m'.keypad.latch = m.keypad.latch
  /-- The keys that are held stay held. -/
  held : m'.keypad.held = m.keypad.held
  /-- The random bytes go on as far as the instruction takes some. -/
  random : m'.random = { m.random with position := m.random.position + i.randomBytes }

/-- The machine `m'` differs from `m` only in what a cycle may change while register `x` waits for a
key: the timers, the latch, the wait and the register. -/
structure PauseFootprint (m : Machine) (x : Fin 16) (m' : Machine) : Prop where
  config : m'.config = m.config
  memory : m'.memory = m.memory
  registers : ∀ y, y ≠ x → m'.registers.get y = m.registers.get y
  pc : m'.pc = m.pc
  fetchedAt : m'.fetchedAt = m.fetchedAt
  index : m'.index = m.index
  stack : m'.stack = m.stack
  screen : m'.screen = m.screen
  held : m'.keypad.held = m.keypad.held
  random : m'.random = m.random

/-- The machine `m'` differs from `m` only in the memory that `program` takes up. -/
structure LoadFootprint (m : Machine) (program : List UInt8) (m' : Machine) : Prop where
  /-- Nothing but the memory changes. -/
  others : m' = { m with memory := m'.memory }
  /-- The program is there. -/
  placed : m'.memory.slice 0x200 program.length = program
  /-- Before and behind it memory stays the same. -/
  outside : ∀ address, address < 0x200 ∨ 0x200 + program.length ≤ address →
    m'.memory.read address = m.memory.read address

/-- What is on the stack after a call or a return that was not refused. -/
theorem stack_effect_of_refusal (hrefusal : m.refusal i = none) :
    i.MovesStack m.pc (m.effect i).pc m.stack (m.effect i).stack := by
  cases i with
  | ret =>
    cases hopen : m.stack with
    | nil =>
      have hrefused : m.refusal .ret = some (.stackUnderflow m.fetchedAt) := if_pos hopen
      rw [hrefused] at hrefusal
      cases hrefusal
    | cons latest older =>
      show latest :: older = m.stack.headD m.pc :: m.stack.tail
      rw [hopen]
      rfl
  | loadRegisters x => exact stack_effect m (.loadRegisters x)
  | _ => rfl

/-- An instruction that takes effect stays within its footprint. -/
theorem footprint_of_refusal (hrefusal : m.fetched.refusal i = none) :
    m.Footprint i (m.fetched.effect i).tickTimers where
  config := config_effect m.fetched i
  pixels hdraws := isLit_effect (m := m.fetched) hdraws
  presented := presented_effect m.fetched i
  stack := stack_effect_of_refusal hrefusal
  memory _ hstores := read_effect (m := m.fetched) hstores
  index hmoves := index_effect (m := m.fetched) hmoves
  registers _ hwrites := get_effect (m := m.fetched) hwrites
  delay := congrArg countDown (delay_effect m.fetched i)
  sound := congrArg countDown (sound_effect m.fetched i)
  waiting hwaits := waiting_effect (m := m.fetched) hwaits
  latch hwaits := latch_effect (m := m.fetched) hwaits
  held := held_effect m.fetched i
  random := random_effect m.fetched i

/-- A cycle of a machine that waits for a key stays within its footprint, with and without a
press. -/
theorem pauseFootprint_awaitKey (m : Machine) (x : Fin 16) :
    (m.awaitKey x).fault = none ∧ m.PauseFootprint x (m.awaitKey x).machine := by
  cases hlatch : m.keypad.latch with
  | none =>
    have htake : m.keypad.take = (none, m.keypad.take.2) := Prod.ext hlatch rfl
    rw [awaitKey, htake]
    exact ⟨rfl, rfl, rfl, fun _ _ => rfl, rfl, rfl, rfl, rfl, rfl, rfl, rfl⟩
  | some key =>
    have htake : m.keypad.take = (some key, m.keypad.take.2) := Prod.ext hlatch rfl
    rw [awaitKey, htake]
    refine ⟨rfl, rfl, rfl, fun y hy => ?_, rfl, rfl, rfl, rfl, rfl, rfl, rfl⟩
    exact Registers.get_set_of_ne m.registers _ hy

/-- A program that fits is loaded without touching anything else. -/
theorem loadFootprint_of_le (m : Machine) {program : List UInt8} (hfits : program.length ≤ 3584) :
    (m.load program).fault = none ∧ m.LoadFootprint program (m.load program).machine := by
  have hroom : 0x200 + program.length ≤ 4096 := by omega
  rw [m.load_of_le hfits]
  exact ⟨rfl, rfl, Memory.slice_write m.memory (Memory.spans_iff.2 hroom),
    fun _ houtside => Memory.read_write_outside m.memory houtside⟩

/-- Every operation keeps to its footprint: a cycle that executes an instruction, a cycle that waits
for a key, and a load. A load that fails does nothing. -/
theorem operations_keep_to_footprint (m : Machine) :
    (m.waiting = none → m.cycle.fault = none →
      ∃ i : Instruction, i.encode = m.nextWord ∧ m.Footprint i m.cycle.machine) ∧
    (∀ x, m.waiting = some x → m.cycle.fault = none ∧ m.PauseFootprint x m.cycle.machine) ∧
    (∀ program : List UInt8, program.length ≤ 3584 →
      (m.load program).fault = none ∧ m.LoadFootprint program (m.load program).machine) ∧
    ∀ program : List UInt8, 3584 < program.length →
      (m.load program).fault ≠ none ∧ (m.load program).machine = m := by
  refine ⟨fun hrunning hsuccess => ?_, fun x hwaiting => ?_, fun program => m.loadFootprint_of_le,
    fun program hlarge => ?_⟩
  · cases m.cycleCase with
    | paused x hwaiting hcycle =>
      rw [hrunning] at hwaiting
      cases hwaiting
    | unfetched _ _ hcycle | unreadable _ _ _ hcycle | refused _ _ _ _ hcycle =>
      rw [hcycle] at hsuccess
      cases hsuccess
    | executed i hexec hrefusal hcycle =>
      refine ⟨i, Instruction.encode_of_decode? hexec.reads, ?_⟩
      rw [hcycle]
      exact footprint_of_refusal hrefusal
  · rw [cycle_of_paused hwaiting]
    exact pauseFootprint_awaitKey m x
  · rw [m.load_of_lt hlarge]
    exact ⟨Option.some_ne_none _, rfl⟩

/-- Four registers stored into the last four bytes of memory: the cycle succeeds and keeps to the
footprint of its instruction. -/
theorem operations_keep_to_footprint_storeRegisters :
    let m : Machine :=
      { (Machine.new {} (Vector.replicate 8 0)).act
          (.load (Instruction.storeRegisters 3).bytes) with
        index := 0xFFC }
    m.waiting = none ∧ m.cycle.fault = none ∧
      ∃ i : Instruction, i.encode = m.nextWord ∧ m.Footprint i m.cycle.machine := by
  intro m
  have hloaded := executes_load {} (Vector.replicate 8 0) (.storeRegisters 3)
  have hexec : m.Executes (.storeRegisters 3) := ⟨hloaded.running, hloaded.inside, hloaded.reads⟩
  have hrefusal : m.fetched.refusal (.storeRegisters 3) = none := rfl
  have hfault : m.cycle.fault = none := by
    rw [cycle_of_executes hexec, hrefusal]
  exact ⟨hexec.running, hfault, (operations_keep_to_footprint m).1 hexec.running hfault⟩

end Machine

end ChipEight
