import ChipEight.Proofs.Chronicle
import Mathlib.Data.List.GetD

/-!
# Storing and loading registers

Registers that are stored and loaded again come back, and bytes that are loaded and stored again
stay. Program and data share one memory, so a store may hit the instruction that is to follow it;
`Memory.WordOutside` rules that out.

* `Memory.read_write_of_lt` and `Memory.write_slice` are the two round trips in memory.
* `Machine.loadRegisters_of_stored` loads bytes that were stored by the instruction before, and
  `Machine.storeRegisters_of_loaded` stores bytes that were loaded by the instruction before.
* `Machine.block_transfers_invert` says so of registers and of the digits of a number, for two words
  of a program that are next to each other.
-/

namespace ChipEight

namespace Memory

variable (m : Memory) {start address n : Nat} {bytes : List UInt8}

/-- A byte of a block that is written is read back, as long as it lies in memory. -/
theorem read_write_of_lt {k : Nat} (hk : k < bytes.length) (hinside : start + k < 4096) :
    (m.write start bytes).read (start + k) = bytes[k] := by
  have hin : start ≤ start + k ∧ start + k < 4096 := ⟨Nat.le_add_right _ _, hinside⟩
  rw [read_write, if_pos hin, Nat.add_sub_cancel_left, List.getD_eq_getElem _ _ hk]

/-- Bytes that are written where they were read change nothing. -/
theorem write_slice (start n : Nat) : m.write start (m.slice start n) = m := by
  refine ext_read fun a ha => ?_
  rw [read_write]
  split
  · next hin =>
    rcases Nat.lt_or_ge (a - start) n with hk | hk
    · rw [List.getD_eq_getElem _ _ (by rwa [length_slice]), getElem_slice,
        Nat.add_sub_cancel' hin.1]
    · exact List.getD_eq_default _ _ (by rwa [length_slice])
  · rfl

/-- The two bytes of the word at `address` lie outside the `n` bytes from `start` on. -/
def WordOutside (start n address : Nat) : Prop :=
  ∀ k < n, start + k ≠ address ∧ start + k ≠ address + 1

instance (start n address : Nat) : Decidable (WordOutside start n address) :=
  inferInstanceAs (Decidable (∀ k < n, _))

/-- A word outside the block that is written stays as it is. -/
theorem word_write_of_outside (h : WordOutside start bytes.length address) :
    (m.write start bytes).word address = m.word address := by
  have hread : ∀ a, a = address ∨ a = address + 1 → (m.write start bytes).read a = m.read a := by
    intro a ha
    apply read_write_outside
    by_contra hin
    -- otherwise `a` would be the address of a byte of the block
    obtain ⟨hfirst, hsecond⟩ := h (a - start) (by omega)
    omega
  rw [word, word, hread address (.inl rfl), hread (address + 1) (.inr rfl)]

end Memory

namespace Registers

/-- Each register up to `x` is among the values up to `x`. -/
theorem getD_upTo (r : Registers) {x k : Fin 16} (hk : k ≤ x) : (r.upTo x).getD k 0 = r.get k := by
  have hlt : k.val < (r.upTo x).length := by
    rw [length_upTo]
    exact Nat.lt_succ_of_le hk
  rw [List.getD_eq_getElem _ _ hlt, getElem_upTo]

/-- The registers that were filled with some values hold these values. -/
theorem upTo_fill (r : Registers) (x : Fin 16) (value : Nat → UInt8) :
    (r.fill x value).upTo x = (List.range (x + 1)).map value := by
  refine List.ext_getElem (by simp) fun k hk hk' => ?_
  rw [length_upTo] at hk
  have hle : (⟨k, by omega⟩ : Fin 16) ≤ x := Fin.le_def.2 (Nat.le_of_lt_succ hk)
  rw [getElem_upTo, get_fill, if_pos hle, List.getElem_map, List.getElem_range]

end Registers

namespace Machine

variable {m s : Machine} {x y : Fin 16} {bytes : List UInt8}

/-! ### The three instructions -/

/-- The machine after a cycle that has stored `bytes` at the index. -/
def stored (m : Machine) (bytes : List UInt8) : Machine :=
  { m.fetched with memory := m.memory.write m.index.toNat bytes }.tickTimers

/-- The machine after a cycle that has loaded the registers up to `x` from the index. -/
def loaded (m : Machine) (x : Fin 16) : Machine :=
  { m.fetched with
    registers := m.registers.fill x fun k => m.memory.read (m.index.toNat + k) }.tickTimers

theorem memory_stored (m : Machine) (bytes : List UInt8) :
    (m.stored bytes).memory = m.memory.write m.index.toNat bytes := rfl

theorem memory_loaded (m : Machine) (x : Fin 16) : (m.loaded x).memory = m.memory := by
  simp only [loaded, tickTimers, fetched]

theorem index_loaded (m : Machine) (x : Fin 16) : (m.loaded x).index = m.index := by
  simp only [loaded, tickTimers, fetched]

theorem waiting_loaded (m : Machine) (x : Fin 16) : (m.loaded x).waiting = m.waiting := by
  simp only [loaded, tickTimers, fetched]

theorem pc_loaded (m : Machine) (x : Fin 16) : (m.loaded x).pc = m.fetched.pc := by
  simp only [loaded, tickTimers]

theorem cycle_of_storeRegisters (hexec : m.Executes (.storeRegisters x))
    (hfits : m.index.toNat + x < 4096) :
    m.cycle.fault = none ∧ m.cycle.machine = m.stored (m.registers.upTo x) :=
  cycle_of_not_refused hexec (if_pos (Memory.spans_iff.2 hfits))

theorem cycle_of_storeDecimal (hexec : m.Executes (.storeDecimal x))
    (hfits : m.index.toNat + 2 < 4096) :
    m.cycle.fault = none ∧ m.cycle.machine = m.stored (decimalDigits (m.v x)) :=
  cycle_of_not_refused hexec (if_pos (Memory.spans_iff.2 hfits))

theorem cycle_of_loadRegisters (hexec : m.Executes (.loadRegisters x))
    (hfits : m.index.toNat + x < 4096) : m.cycle.fault = none ∧ m.cycle.machine = m.loaded x :=
  cycle_of_not_refused hexec (if_pos (Memory.spans_iff.2 hfits))

theorem v_loaded (m : Machine) (x k : Fin 16) :
    (m.loaded x).v k = if k ≤ x then m.memory.read (m.index.toNat + k) else m.v k :=
  Registers.get_fill m.registers x k fun k => m.memory.read (m.index.toNat + k)

theorem upTo_loaded (m : Machine) (x : Fin 16) :
    (m.loaded x).registers.upTo x = m.memory.slice m.index.toNat (x + 1) :=
  Registers.upTo_fill m.registers x fun k => m.memory.read (m.index.toNat + k)

/-- A machine that stands behind the word at `pc` executes the instruction found there. -/
theorem executes_behind {i : Instruction} (hinside : m.pc.toNat + 3 < 4096)
    (hrunning : s.waiting = none) (hpc : s.pc = m.fetched.pc)
    (hword : s.memory.word (m.pc.toNat + 2) = i.encode) : s.Executes i := by
  have hbehind : s.pc.toNat = m.pc.toNat + 2 := by
    rw [hpc]
    exact toNat_pc_fetched (by omega)
  refine executes_of_nextWord hrunning (by omega) ?_
  rw [nextWord, hbehind]
  exact hword

/-! ### Round trips -/

/-- Bytes that were stored are loaded, whatever the registers hold by then. The registers that are
loaded hold the bytes, the others what they held. -/
theorem loadRegisters_of_stored (hrunning : m.waiting = none) (hinside : m.pc.toNat + 3 < 4096)
    (hlength : y < bytes.length) (hfits : m.index.toNat + bytes.length ≤ 4096)
    (houtside : Memory.WordOutside m.index.toNat bytes.length (m.pc.toNat + 2))
    (hnext : m.memory.word (m.pc.toNat + 2) = (Instruction.loadRegisters y).encode)
    (registers : Registers) :
    let changed := { m.stored bytes with registers }
    changed.cycle.fault = none ∧ changed.cycle.machine.index = m.index ∧
      changed.cycle.machine.memory.slice m.index.toNat bytes.length = bytes ∧
      ∀ k, changed.cycle.machine.v k = if k ≤ y then bytes.getD k 0 else registers.get k := by
  intro changed
  -- the store has spared the instruction that is to be executed now
  have hexec : changed.Executes (.loadRegisters y) := by
    refine executes_behind hinside hrunning rfl ?_
    exact (Memory.word_write_of_outside m.memory houtside).trans hnext
  have hend : m.index.toNat + y < 4096 := by omega
  obtain ⟨hfault, hmachine⟩ := cycle_of_loadRegisters hexec hend
  rw [hmachine]
  refine ⟨hfault, rfl, Memory.slice_write m.memory (Memory.spans_iff.2 hfits), fun k => ?_⟩
  rw [v_loaded]
  split
  · next hk =>
    have hbyte : k.val < bytes.length := Nat.lt_of_le_of_lt hk hlength
    rw [List.getD_eq_getElem _ _ hbyte]
    exact Memory.read_write_of_lt m.memory hbyte (by omega)
  · rfl

/-- Bytes that were loaded are stored again: memory is as it was before. -/
theorem storeRegisters_of_loaded (hrunning : m.waiting = none) (hinside : m.pc.toNat + 3 < 4096)
    (hfits : m.index.toNat + x < 4096)
    (hnext : m.memory.word (m.pc.toNat + 2) = (Instruction.storeRegisters x).encode) :
    (m.loaded x).cycle.fault = none ∧ (m.loaded x).cycle.machine.memory = m.memory := by
  have hexec : (m.loaded x).Executes (.storeRegisters x) :=
    executes_behind hinside ((waiting_loaded m x).trans hrunning) (pc_loaded m x)
      (by rwa [memory_loaded])
  obtain ⟨hfault, hmachine⟩ := cycle_of_storeRegisters hexec (by rwa [index_loaded])
  refine ⟨hfault, ?_⟩
  rw [hmachine, upTo_loaded, memory_stored, memory_loaded, index_loaded, Memory.write_slice]

/-- A byte is made up of its decimal digits. -/
theorem toNat_decimalDigits (value : UInt8) :
    ∃ a b c : UInt8, decimalDigits value = [a, b, c] ∧
      a.toNat ≤ 9 ∧ b.toNat ≤ 9 ∧ c.toNat ≤ 9 ∧
      100 * a.toNat + 10 * b.toNat + c.toNat = value.toNat := by
  have hlt := value.toNat_lt
  refine ⟨_, _, _, rfl, ?_⟩
  simp only [UInt8.toNat_div, UInt8.toNat_mod, UInt8.reduceToNat]
  omega

/-! ### Two words that are next to each other -/

/-- Registers that are stored up to `x` come back up to `y`, whether or not they were changed in
between. Those that are not loaded stay as they were changed, and memory holds what was stored. -/
theorem loadRegisters_after_storeRegisters (hrunning : m.waiting = none)
    (hinside : m.pc.toNat + 3 < 4096) (hle : y ≤ x) (hfits : m.index.toNat + x < 4096)
    (houtside : Memory.WordOutside m.index.toNat (x + 1) (m.pc.toNat + 2))
    (hfirst : m.Executes (.storeRegisters x))
    (hsecond : m.memory.word (m.pc.toNat + 2) = (Instruction.loadRegisters y).encode) :
    m.cycle.fault = none ∧ m.cycle.machine.registers = m.registers ∧
      ∀ registers : Registers,
        let changed := { m.cycle.machine with registers }
        changed.cycle.fault = none ∧ changed.cycle.machine.index = m.index ∧
          changed.cycle.machine.memory.slice m.index.toNat (x + 1) = m.registers.upTo x ∧
          ∀ k, changed.cycle.machine.v k = if k ≤ y then m.v k else registers.get k := by
  obtain ⟨hfault, hstored⟩ := cycle_of_storeRegisters hfirst hfits
  have hlength : (m.registers.upTo x).length = x + 1 := Registers.length_upTo m.registers x
  have hend : y < (m.registers.upTo x).length := by omega
  have hloaded := loadRegisters_of_stored hrunning hinside hend (by omega) (by rwa [hlength])
    hsecond
  rw [hlength, ← hstored] at hloaded
  refine ⟨hfault, congrArg (·.registers) hstored, fun registers => ?_⟩
  obtain ⟨hfault', hindex, hmemory, hv⟩ := hloaded registers
  refine ⟨hfault', hindex, hmemory, fun k => ?_⟩
  rw [hv k]
  split
  -- what is loaded is among what was stored
  · next hk => exact Registers.getD_upTo m.registers (Nat.le_trans hk hle)
  · rfl

/-- The digits of register `x` come back into the first three registers. -/
theorem loadRegisters_after_storeDecimal (hrunning : m.waiting = none)
    (hinside : m.pc.toNat + 3 < 4096) (hfits : m.index.toNat + 2 < 4096)
    (houtside : Memory.WordOutside m.index.toNat 3 (m.pc.toNat + 2))
    (hfirst : m.Executes (.storeDecimal x))
    (hsecond : m.memory.word (m.pc.toNat + 2) = (Instruction.loadRegisters 2).encode) :
    m.cycle.fault = none ∧ m.cycle.machine.cycle.fault = none ∧
      ∀ k ≤ 2, m.cycle.machine.cycle.machine.v k = (decimalDigits (m.v x)).getD k 0 := by
  obtain ⟨hfault, hstored⟩ := cycle_of_storeDecimal hfirst hfits
  have hend : (2 : Fin 16).val < (decimalDigits (m.v x)).length := Nat.lt_succ_self 2
  have hloaded := loadRegisters_of_stored hrunning hinside hend hfits houtside hsecond
    m.cycle.machine.registers
  rw [← hstored] at hloaded
  obtain ⟨hfault', -, -, hv⟩ := hloaded
  exact ⟨hfault, hfault', fun k hk => (hv k).trans (if_pos hk)⟩

/-- Storing and loading undo each other. Let two words that are next to each other be executed, with
the block at the index inside memory.

* Registers are stored up to `x` and loaded up to `y`, which is at most `x`, and the block spares
  the second word. Then the registers and the index are as they were, and the block holds the
  registers. If the registers are changed in between, those up to `y` are as they were before the
  store and the others as they were changed.
* Registers are loaded up to `x` and stored up to `x`. Then memory is as it was.
* The decimal digits of register `x` are stored and the first three registers loaded, and the block
  spares the second word. Then these registers hold digits that make up the old number. -/
theorem block_transfers_invert (m : Machine) (hrunning : m.waiting = none)
    (hinside : m.pc.toNat + 3 < 4096) :
    let start := m.index.toNat
    let next := m.pc.toNat + 2
    let m₁ := m.cycle.machine
    let m₂ := m₁.cycle.machine
    (∀ x y : Fin 16, y ≤ x → start + x < 4096 → Memory.WordOutside start (x + 1) next →
      m.nextWord = Word.ofByte 0xF x 0x55 → m.memory.word next = Word.ofByte 0xF y 0x65 →
        m.cycle.fault = none ∧ m₁.cycle.fault = none ∧
        m₂.registers = m.registers ∧ m₂.index = m.index ∧
        m₂.memory.slice start (x + 1) = m.registers.upTo x ∧
        ∀ registers : Registers,
          let changed := { m₁ with registers }
          changed.cycle.fault = none ∧ (∀ k ≤ y, changed.cycle.machine.v k = m.v k) ∧
            ∀ k, y < k → changed.cycle.machine.v k = registers.get k) ∧
    (∀ x : Fin 16, start + x < 4096 →
      m.nextWord = Word.ofByte 0xF x 0x65 → m.memory.word next = Word.ofByte 0xF x 0x55 →
        m.cycle.fault = none ∧ m₁.cycle.fault = none ∧ m₂.memory = m.memory) ∧
    ∀ x : Fin 16, start + 2 < 4096 → Memory.WordOutside start 3 next →
      m.nextWord = Word.ofByte 0xF x 0x33 → m.memory.word next = Word.ofByte 0xF 2 0x65 →
        m.cycle.fault = none ∧ m₁.cycle.fault = none ∧
        (m₂.v 0).toNat ≤ 9 ∧ (m₂.v 1).toNat ≤ 9 ∧ (m₂.v 2).toNat ≤ 9 ∧
        100 * (m₂.v 0).toNat + 10 * (m₂.v 1).toNat + (m₂.v 2).toNat = (m.v x).toNat := by
  intro start next m₁ m₂
  have hword : m.pc.toNat + 1 < 4096 := by omega
  refine ⟨fun x y hle hfits houtside hfirst hsecond => ?_, fun x hfits hfirst hsecond => ?_,
    fun x hfits houtside hfirst hsecond => ?_⟩
  · have hexec : m.Executes (.storeRegisters x) := executes_of_nextWord hrunning hword hfirst
    obtain ⟨hfault, hregisters, hloaded⟩ :=
      loadRegisters_after_storeRegisters hrunning hinside hle hfits houtside hexec hsecond
    -- nothing is changed in between if the registers are set to what they are
    obtain ⟨hfault', hindex, hmemory, hv⟩ := hloaded m₁.registers
    refine ⟨hfault, hfault', Registers.ext_get fun k => ?_, hindex, hmemory, fun registers => ?_⟩
    · refine (hv k).trans ?_
      rw [show m₁.registers = m.registers from hregisters]
      exact ite_self _
    · obtain ⟨hfault', -, -, hv⟩ := hloaded registers
      refine ⟨hfault', fun k hk => ?_, fun k hk => ?_⟩
      · rw [hv k, if_pos hk]
      · rw [hv k, if_neg (Fin.not_le.2 hk)]
  · have hexec : m.Executes (.loadRegisters x) := executes_of_nextWord hrunning hword hfirst
    obtain ⟨hfault, hloaded⟩ := cycle_of_loadRegisters hexec hfits
    -- a load changes no memory, so it cannot hit the second word
    have hstored := storeRegisters_of_loaded hrunning hinside hfits hsecond
    rw [← hloaded] at hstored
    exact ⟨hfault, hstored⟩
  · have hexec : m.Executes (.storeDecimal x) := executes_of_nextWord hrunning hword hfirst
    obtain ⟨hfault, hfault', hv⟩ :=
      loadRegisters_after_storeDecimal hrunning hinside hfits houtside hexec hsecond
    obtain ⟨a, b, c, hdigits, ha, hb, hc, hvalue⟩ := toNat_decimalDigits (m.v x)
    rw [hdigits] at hv
    have h0 : m₂.v 0 = a := hv 0 (by decide)
    have h1 : m₂.v 1 = b := hv 1 (by decide)
    have h2 : m₂.v 2 = c := hv 2 (by decide)
    rw [h0, h1, h2]
    exact ⟨hfault, hfault', ha, hb, hc, hvalue⟩

/-- Registers 0 to 3 fill the last four bytes of memory. They come back there and from there, and so
do the digits of register 2, which is itself overwritten. -/
theorem block_transfers_invert_edge :
    let ready (pair : List Instruction) : Machine :=
      (Machine.new {} (Vector.replicate 8 0)).after
        [.load (Instruction.assemble (.setByte 2 253 :: .setIndex 0xFFC :: pair)), .cycle, .cycle]
    let there := ready [.storeRegisters 3, .loadRegisters 2]
    let back := ready [.loadRegisters 3, .storeRegisters 3]
    let digits := ready [.storeDecimal 2, .loadRegisters 2]
    (there.cycle.machine.cycle.machine.registers = there.registers ∧
      there.cycle.machine.cycle.machine.memory.slice 0xFFC 4 = [0, 0, 253, 0]) ∧
    back.cycle.machine.cycle.machine.memory = back.memory ∧
    ((digits.cycle.machine.cycle.machine.v 2).toNat ≤ 9 ∧
      100 * (digits.cycle.machine.cycle.machine.v 0).toNat +
        10 * (digits.cycle.machine.cycle.machine.v 1).toNat +
        (digits.cycle.machine.cycle.machine.v 2).toNat = 253) := by
  intro ready there back digits
  -- four bytes from the index on are the last ones in memory
  refine ⟨?_, ?_, ?_⟩
  · obtain ⟨hrunning, hinside, hindex, houtside, hfirst, hsecond, hregisters⟩ :
        there.waiting = none ∧ there.pc.toNat + 3 < 4096 ∧ there.index.toNat = 0xFFC ∧
          Memory.WordOutside there.index.toNat 4 (there.pc.toNat + 2) ∧
          there.nextWord = Word.ofByte 0xF 3 0x55 ∧
          there.memory.word (there.pc.toNat + 2) = Word.ofByte 0xF 2 0x65 ∧
          there.registers.upTo 3 = [0, 0, 253, 0] := by
      decide +kernel
    obtain ⟨hstore, -⟩ := block_transfers_invert there hrunning hinside
    obtain ⟨-, -, hback, -, hmemory, -⟩ :=
      hstore 3 2 (by decide) (by rw [hindex]; decide) houtside hfirst hsecond
    rw [hindex, hregisters] at hmemory
    exact ⟨hback, hmemory⟩
  · obtain ⟨hrunning, hinside, hindex, hfirst, hsecond⟩ :
        back.waiting = none ∧ back.pc.toNat + 3 < 4096 ∧ back.index.toNat = 0xFFC ∧
          back.nextWord = Word.ofByte 0xF 3 0x65 ∧
          back.memory.word (back.pc.toNat + 2) = Word.ofByte 0xF 3 0x55 := by
      decide +kernel
    obtain ⟨-, hload, -⟩ := block_transfers_invert back hrunning hinside
    exact (hload 3 (by rw [hindex]; decide) hfirst hsecond).2.2
  · obtain ⟨hrunning, hinside, hindex, houtside, hfirst, hsecond, hvalue⟩ :
        digits.waiting = none ∧ digits.pc.toNat + 3 < 4096 ∧ digits.index.toNat = 0xFFC ∧
          Memory.WordOutside digits.index.toNat 3 (digits.pc.toNat + 2) ∧
          digits.nextWord = Word.ofByte 0xF 2 0x33 ∧
          digits.memory.word (digits.pc.toNat + 2) = Word.ofByte 0xF 2 0x65 ∧
          (digits.v 2).toNat = 253 := by
      decide +kernel
    obtain ⟨-, -, hdigits⟩ := block_transfers_invert digits hrunning hinside
    obtain ⟨-, -, -, -, hunits, htotal⟩ :=
      hdigits 2 (by rw [hindex]; decide) houtside hfirst hsecond
    exact ⟨hunits, htotal.trans hvalue⟩

end Machine

end ChipEight
