import ChipEight.Proofs.UnreadMemory

/-!
# Faults of memory accesses

A cycle that fails with `Fault.memoryOutOfBounds` names an address behind the end of memory. It is
the address of a byte that the cycle would have touched: a byte of the word to be fetched, or the
last byte of the block on which the instruction works.

There is one exception. A sprite without rows has an empty block, so that drawing it touches
nothing. It is refused nevertheless when the index is behind the end of memory, and the fault then
names the byte before the index.

* `Machine.outOfBoundsCase` lists the ways in which a cycle ends in such a fault.
* `Machine.outOfBounds_names_touched_byte` compares the address with the bytes that the cycle would
  have touched. `Machine.blankDraw_names_untouched_byte` is a run to the exception.
-/

namespace ChipEight

namespace Instruction

/-- The instruction reads or stores the byte at `address` when the index is `index`. -/
def Touches (index address : Nat) (i : Instruction) : Prop :=
  i.Loads index address ∨ i.Stores index address

/-- The length of the block at the index on which the instruction works. -/
def blockLength : Instruction → Nat
  | .draw _ _ rows => rows
  | .storeDecimal _ => 3
  | .storeRegisters x | .loadRegisters x => x + 1
  | _ => 0

/-- An instruction touches the bytes of its block and no other. -/
theorem touches_iff {index address : Nat} {i : Instruction} :
    i.Touches index address ↔ index ≤ address ∧ address < index + i.blockLength := by
  -- an instruction loads its block or stores it, and never both
  unfold Touches
  cases i with
  | draw x y rows => simp only [Loads, Stores, blockLength, or_false]
  | storeDecimal x =>
    simp only [Loads, Stores, blockLength, false_or]
    omega
  | storeRegisters x | loadRegisters x =>
    simp only [Loads, Stores, blockLength, false_or, or_false]
    omega
  | _ =>
    simp only [Loads, Stores, blockLength, or_self, false_iff]
    omega

end Instruction

namespace Machine

variable {m : Machine} {i : Instruction} {address : Nat}

/-- The next cycle has to read or store the byte at `address`, be there such a byte or not. -/
inductive Touches (m : Machine) (address : Nat) : Prop where
  /-- The byte belongs to the word that is fetched. -/
  | fetch (hrunning : m.waiting = none)
      (haddress : address = m.pc.toNat ∨ address = m.pc.toNat + 1)
  /-- The instruction at `pc` reads the byte or stores it. -/
  | instruction (i : Instruction) (hexec : m.Executes i)
      (htouches : i.Touches m.index.toNat address)

/-- Only one instruction is executed. -/
theorem Executes.unique {j : Instruction} (h : m.Executes i) (h' : m.Executes j) : i = j :=
  Option.some.inj (h.reads.symm.trans h'.reads)

/-- The ways in which a cycle fails with an access to `address`. -/
inductive OutOfBoundsCase (m : Machine) (address : Nat) : Prop where
  /-- The second byte of the word at `pc` is behind the end of memory. -/
  | fetch (hrunning : m.waiting = none) (hpc : 4096 ≤ m.pc.toNat + 1)
      (haddress : address = m.pc.toNat + 1)
  /-- The last byte of the block is behind the end of memory. -/
  | block (i : Instruction) (hexec : m.Executes i) (hlength : 0 < i.blockLength)
      (hbehind : 4096 < m.index.toNat + i.blockLength)
      (haddress : address + 1 = m.index.toNat + i.blockLength)
  /-- The sprite has no rows, and the index itself is behind the end of memory. -/
  | blank (x y : Fin 16) (hexec : m.Executes (.draw x y 0)) (hbehind : 4096 < m.index.toNat)
      (haddress : address + 1 = m.index.toNat)

/-- A block is refused when it reaches past the end of memory, with the address of its last
byte. -/
theorem rangeFault_eq_outOfBounds {n : Nat}
    (h : m.rangeFault n = some (.memoryOutOfBounds address)) :
    4096 < m.index.toNat + n ∧ address + 1 = m.index.toNat + n := by
  unfold rangeFault at h
  split at h
  · cases h
  · next hspans =>
    have hbehind : 4096 < m.index.toNat + n := Nat.lt_of_not_le hspans
    cases h
    exact ⟨hbehind, Nat.sub_add_cancel (by omega)⟩

/-- The block of an instruction that is refused for an access. It is empty only where a sprite has
no rows. -/
theorem blockLength_of_refusal (h : m.refusal i = some (.memoryOutOfBounds address)) :
    m.rangeFault i.blockLength = some (.memoryOutOfBounds address) ∧
      (0 < i.blockLength ∨ ∃ x y, i = .draw x y 0) := by
  cases i with
  | draw x y rows =>
    refine ⟨h, ?_⟩
    rcases Nat.eq_zero_or_pos rows.val with hnone | hrows
    · have hrows : rows = 0 := Fin.ext hnone
      exact .inr ⟨x, y, by rw [hrows]⟩
    · exact .inl hrows
  | storeDecimal x => exact ⟨h, .inl (Nat.succ_pos 2)⟩
  | storeRegisters x | loadRegisters x => exact ⟨h, .inl (Nat.succ_pos _)⟩
  -- calls and returns are refused for other reasons, and the rest is never refused
  | ret =>
    simp only [refusal] at h
    split at h <;> cases h
  | call target =>
    simp only [refusal] at h
    split at h
    · cases h
    · split at h <;> cases h
  | _ => cases h

theorem outOfBoundsCase (h : m.cycle.fault = some (.memoryOutOfBounds address)) :
    OutOfBoundsCase m address := by
  cases m.cycleCase with
  | paused x hwaiting hcycle =>
    rw [hcycle, (pauseFootprint_awaitKey m x).1] at h
    cases h
  | unfetched hrunning hpc hcycle =>
    rw [hcycle] at h
    cases h
    exact .fetch hrunning hpc rfl
  | unreadable hrunning hpc hword hcycle =>
    rw [hcycle] at h
    cases h
  | refused i fault hexec hrefusal hcycle =>
    rw [hcycle] at h
    obtain rfl : fault = .memoryOutOfBounds address := Option.some.inj h
    -- the fetch has not moved the index
    obtain ⟨hrange, hblock⟩ := blockLength_of_refusal hrefusal
    obtain ⟨hbehind, haddress⟩ := rangeFault_eq_outOfBounds hrange
    rcases hblock with hlength | ⟨x, y, rfl⟩
    · exact .block i hexec hlength hbehind haddress
    · exact .blank x y hexec hbehind haddress
  | executed i hexec hrefusal hcycle =>
    rw [hcycle] at h
    cases h

/-- Drawing a sprite without rows touches no byte behind the end of memory. -/
theorem not_touches_of_blankDraw {x y : Fin 16} (hexec : m.Executes (.draw x y 0))
    (hbehind : 4096 ≤ address) : ¬ m.Touches address := by
  intro htouches
  cases htouches with
  | fetch hrunning haddress =>
    have hinside := hexec.inside
    omega
  | instruction i hexec' htouches =>
    obtain rfl := hexec.unique hexec'
    obtain ⟨hle, hlt⟩ := Instruction.touches_iff.1 htouches
    exact Nat.not_lt.2 hle hlt

/-- A fault of a memory access names an address behind the end of memory. The cycle would have
touched a byte there, unless it draws a sprite without rows; in that case the index is behind the
end of memory, and the address is the one before it. No other instruction that touches no byte ends
in such a fault. -/
theorem outOfBounds_names_touched_byte (m : Machine) (address : Nat)
    (hfault : m.cycle.fault = some (.memoryOutOfBounds address)) :
    4096 ≤ address ∧
      (m.Touches address ∨
        ∃ x y, m.Executes (.draw x y 0) ∧ address + 1 = m.index.toNat ∧ ¬ m.Touches address) ∧
      ∀ i, m.Executes i → (∀ a, ¬ i.Touches m.index.toNat a) → ∃ x y, i = .draw x y 0 := by
  cases outOfBoundsCase hfault with
  | fetch hrunning hpc haddress =>
    refine ⟨haddress ▸ hpc, .inl (.fetch hrunning (.inr haddress)), fun i hexec => ?_⟩
    exact absurd hexec.inside (Nat.not_lt.2 hpc)
  | block i hexec hlength hbehind haddress =>
    -- the last byte of the block belongs to it, as the first one does
    have hlast : i.Touches m.index.toNat address := Instruction.touches_iff.2 (by omega)
    refine ⟨by omega, .inl (.instruction i hexec hlast), fun j hexec' hnone => ?_⟩
    obtain rfl := hexec.unique hexec'
    exact absurd hlast (hnone address)
  | blank x y hexec hbehind haddress =>
    have hend : 4096 ≤ address := by omega
    refine ⟨hend, .inr ⟨x, y, hexec, haddress, not_touches_of_blankDraw hexec hend⟩, ?_⟩
    intro i hexec' hnone
    exact ⟨x, y, hexec'.unique hexec⟩

/-- Four registers are loaded from the last two bytes of memory and from two bytes behind it. The
fault names the second of these. -/
theorem outOfBounds_names_touched_byte_loadRegisters :
    let m := (Machine.new {} (Vector.replicate 8 0)).after
      [.load (Instruction.assemble [.setIndex 0xFFE, .loadRegisters 3]), .cycle]
    m.cycle.fault = some (.memoryOutOfBounds 0x1001) ∧ m.Touches 0x1001 := by
  intro m
  obtain ⟨hfault, hinstruction⟩ :
      m.cycle.fault = some (.memoryOutOfBounds 0x1001) ∧
        m.instruction? = some (.loadRegisters 3) := by
    decide +kernel
  have hexec : m.Executes (.loadRegisters 3) := instruction?_eq_some_iff.1 hinstruction
  obtain ⟨-, htouches | ⟨x, y, hdraw, -⟩, -⟩ := outOfBounds_names_touched_byte m 0x1001 hfault
  · exact ⟨hfault, htouches⟩
  · cases hexec.unique hdraw

/-- A program moves the index two bytes behind the last byte of memory and draws a sprite without
rows. The fault names the byte before the index, which the draw would not have touched, as it
touches none. -/
theorem blankDraw_names_untouched_byte :
    let program : List Instruction :=
      [.setIndex 0xFFF, .setByte 0 2, .addIndex 0, .draw 0 0 0]
    let m := (Machine.new {} (Vector.replicate 8 0)).after
      [.load (Instruction.assemble program), .cycle, .cycle, .cycle]
    m.Executes (.draw 0 0 0) ∧ (∀ a, ¬ (Instruction.draw 0 0 0).Touches m.index.toNat a) ∧
      m.cycle.fault = some (.memoryOutOfBounds 0x1000) ∧ ¬ m.Touches 0x1000 := by
  intro program m
  obtain ⟨hinstruction, hfault⟩ :
      m.instruction? = some (.draw 0 0 0) ∧
        m.cycle.fault = some (.memoryOutOfBounds 0x1000) := by
    decide +kernel
  have hexec : m.Executes (.draw 0 0 0) := instruction?_eq_some_iff.1 hinstruction
  refine ⟨hexec, fun a htouches => ?_, hfault, not_touches_of_blankDraw hexec (Nat.le_refl _)⟩
  obtain ⟨hle, hlt⟩ := Instruction.touches_iff.1 htouches
  exact Nat.not_lt.2 hle hlt

end Machine

end ChipEight
