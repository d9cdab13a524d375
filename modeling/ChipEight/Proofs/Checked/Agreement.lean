import ChipEight.Proofs.Checked.Basic
import ChipEight.Proofs.CycleCases

/-!
# Checked cycles agree with cycles

No check of a checked cycle ever fails, from whatever machine it starts, and the single reads and
writes add up to what `Machine.cycle` does at once.

* `run_execute`: a checked instruction is refused before its first write, or has the whole effect.
* `run_cycle`: a checked cycle ends as `Machine.cycle` reports it.

The lemmas follow the definitions: what one read or write does, then what the loops over bytes,
registers and pixels add up to, then instructions, the fetch and the cycle.
-/

namespace ChipEight

/-! ### Drawing in parts -/

theorem Screen.toggleAll_append (s : Screen) (first second : List Cell) :
    s.toggleAll (first ++ second) =
      ((s.toggleAll first).1 || ((s.toggleAll first).2.toggleAll second).1,
        ((s.toggleAll first).2.toggleAll second).2) := by
  induction first generalizing s with
  | nil => simp
  | cons cell first ih => simp [toggleAll_cons, ih, Bool.or_assoc]

/-- The cells of a sprite are those of its first row, then those of the rows below. -/
theorem Sprite.cells_cons (x y : Nat) (byte : UInt8) (bytes : List UInt8) :
    cells x y (byte :: bytes) =
      ((columns byte).map fun column => Cell.wrap (x + column) y) ++ cells x (y + 1) bytes := by
  simp [cells, List.zipIdx_cons, List.zipIdx_succ, List.flatMap_map, Nat.add_assoc, Nat.add_comm 1]

theorem Memory.slice_succ (m : Memory) (start n : Nat) :
    m.slice start (n + 1) = m.read start :: m.slice (start + 1) n := by
  simp [slice, List.range_succ_eq_map, Function.comp_def, Nat.add_assoc, Nat.add_comm 1]

namespace Checked

/-! ### Single reads and writes -/

section
variable (m : Machine)

@[simp] theorem run_map {α β : Type} (f : α → β) (x : Checked α) :
    (f <$> x).run m =
      match x.run m with
      | .ok a m => .ok (f a) m
      | .error stop m => .error stop m := by
  simp only [Functor.map, EStateM.map, EStateM.run]
  cases x m <;> rfl

theorem run_demand {p : Prop} [Decidable p] (h : p) : (demand p).run m = .ok () m := by
  rw [demand, if_pos h]
  rfl

theorem run_narrow {n : Nat} (h : n < 65536) : (narrow n).run m = .ok (UInt16.ofNat n) m := by
  simp [narrow, run_demand m h]

theorem run_loadByte {address : Nat} (h : address < 4096) :
    (loadByte address).run m = .ok (m.memory.read address) m := by
  have hsize : address < Memory.size := h
  simp [loadByte, run_demand m hsize]

theorem run_storeByte {address : Nat} (h : address < 4096) (byte : UInt8) :
    (storeByte address byte).run m = .ok () { m with memory := m.memory.set address byte } := by
  have hsize : address < Memory.size := h
  simp [storeByte, run_demand m hsize]

@[simp] theorem run_register (x : Fin 16) : (register x).run m = .ok (m.v x) m := by
  have hx : x.val < Registers.count := x.isLt
  simp [register, hx]

@[simp] theorem run_setRegister (x : Fin 16) (byte : UInt8) :
    (setRegister x byte).run m = .ok () (m.setV x byte) := by
  have hx : x.val < Registers.count := x.isLt
  simp [setRegister, hx]

/-- Coordinates that wrap around always lie on the screen. -/
theorem run_toggle (x y : Nat) :
    (toggle (x % Screen.width) (y % Screen.height)).run m =
      .ok (m.screen.isLit (.wrap x y)) { m with screen := (m.screen.toggle (.wrap x y)).2 } := by
  have hcell : Cell.at? (x % Screen.width) (y % Screen.height) = some (Cell.wrap x y) :=
    Cell.at?_eq_some_iff.2 ⟨rfl, rfl⟩
  rw [toggle, hcell]
  rfl

theorem run_moveTo {target : Nat} (h : target < 65536) :
    (moveTo target).run m = .ok () { m with pc := UInt16.ofNat target } := by
  simp [moveTo, run_narrow m h]

theorem run_pointAt {target : Nat} (h : target < 65536) :
    (pointAt target).run m = .ok () { m with index := UInt16.ofNat target } := by
  simp [pointAt, run_narrow m h]

/-- The address in the fault does not go below zero. -/
theorem run_checkRange (n : Nat) :
    (checkRange n).run m =
      match m.rangeFault n with
      | some fault => .error (.fault fault) m
      | none => .ok () m := by
  by_cases h : Memory.size < m.index.toNat + n
  · have hspans : ¬ Memory.Spans m.index.toNat n := Nat.not_le.2 h
    have hpos : 1 ≤ m.index.toNat + n := Nat.le_trans (by decide) (Nat.le_of_lt h)
    simp [checkRange, Machine.rangeFault, h, hspans, run_demand m hpos, Machine.indexFault]
  · have hspans : Memory.Spans m.index.toNat n := Nat.not_lt.1 h
    simp [checkRange, Machine.rangeFault, h, hspans]

/-- What follows the check of a range may rely on it. -/
theorem run_checkRange_bind {n : Nat} {rest : Checked Unit} {m m' : Machine}
    (hrest : m.index.toNat + n ≤ 4096 → rest.run m = .ok () m') :
    (checkRange n >>= fun _ => rest).run m =
      match m.rangeFault n with
      | some fault => .error (.fault fault) m
      | none => .ok () m' := by
  rw [EStateM.run_bind, run_checkRange]
  by_cases h : Memory.Spans m.index.toNat n
  · rw [Machine.rangeFault, if_pos h]
    exact hrest h
  · rw [Machine.rangeFault, if_neg h]

theorem run_holds (c : Condition) : (holds c).run m = .ok (decide (m.Holds c)) m := by
  have hdecide : ∀ b : Bool, (b = true ↔ m.Holds c) → b = decide (m.Holds c) := by
    intro b hb
    rw [Bool.eq_iff_iff, hb, decide_eq_true_iff]
  cases c with
  | keyFree x =>
    rw [← hdecide (!m.keypad.isHeld (m.v x).toNat) (by simp [Machine.Holds])]
    simp [holds]
  | _ =>
    simp only [holds, bind_pure_comp, EStateM.run_bind, EStateM.run_get, run_map, run_register]
    exact congrArg (EStateM.Result.ok · m) (hdecide _ (by simp [Machine.Holds]))

/-! ### Loops over bytes, registers and pixels -/

/-- Reads that succeed and change nothing give the list of what they read. -/
theorem run_mapM {α β : Type} {f : α → Checked β} {g : α → β} {l : List α}
    (h : ∀ a ∈ l, (f a).run m = .ok (g a) m) : (l.mapM f).run m = .ok (l.map g) m := by
  induction l with
  | nil => rfl
  | cons a l ih =>
    have ha := h a List.mem_cons_self
    have hl := ih fun b hb => h b (List.mem_cons_of_mem a hb)
    rw [List.mapM_cons]
    simp [ha, hl]

theorem run_loadBytes {start n : Nat} (h : start + n ≤ 4096) :
    ((List.range n).mapM fun k => loadByte (start + k)).run m =
      .ok (m.memory.slice start n) m := by
  apply run_mapM
  intro k hk
  have hlt := List.mem_range.1 hk
  exact run_loadByte m (by omega)

theorem run_registers (x : Fin 16) :
    ((List.range (x + 1)).mapM register).run m = .ok (m.registers.upTo x) m := by
  have hread : ∀ k ∈ List.range (x + 1),
      (register k).run m = .ok (if h : k < 16 then m.v ⟨k, h⟩ else 0) m := by
    intro k hk
    have hlt := List.mem_range.1 hk
    have hk16 : k < 16 := by omega
    rw [dif_pos hk16]
    exact run_register m ⟨k, hk16⟩
  -- Only registers that exist are read, so the default never shows.
  have hlist : ((List.range (x + 1)).map fun k => if h : k < 16 then m.v ⟨k, h⟩ else 0) =
      m.registers.upTo x := by
    refine List.ext_getElem (by simp) fun k hk hk' => ?_
    have hk16 : k < 16 := by
      rw [Registers.length_upTo] at hk'
      omega
    rw [Registers.getElem_upTo]
    simp [hk16, Machine.v]
  rw [run_mapM m hread, hlist]

end

theorem run_storeBytes (m : Machine) (bytes : List UInt8) (start : Nat)
    (h : start + bytes.length ≤ 4096) :
    (storeBytes start bytes).run m = .ok () { m with memory := m.memory.write start bytes } := by
  induction bytes generalizing m start with
  | nil => rfl
  | cons byte bytes ih =>
    rw [List.length_cons] at h
    have hstart : start < 4096 := by omega
    have hstore := run_storeByte m hstart byte
    have hrest := ih { m with memory := m.memory.set start byte } (start + 1) (by omega)
    rw [storeBytes, EStateM.run_bind, hstore]
    exact hrest

/-- Registers that are set one after the other hold the bytes in order; the others are left
alone. -/
theorem run_setRegisters (m : Machine) (bytes : List UInt8) (x : Nat)
    (h : x + bytes.length ≤ 16) :
    ∃ r : Registers,
      (setRegisters x bytes).run m = .ok () { m with registers := r } ∧
      ∀ y : Fin 16, r.get y = if x ≤ y then bytes.getD (y - x) (m.v y) else m.v y := by
  induction bytes generalizing m x with
  | nil =>
    refine ⟨m.registers, rfl, fun y => ?_⟩
    simp [Machine.v]
  | cons byte bytes ih =>
    rw [List.length_cons] at h
    have hset := run_setRegister m ⟨x, by omega⟩ byte
    obtain ⟨r, hrun, hr⟩ := ih (m.setV ⟨x, by omega⟩ byte) (x + 1) (by omega)
    refine ⟨r, ?_, fun y => ?_⟩
    · rw [setRegisters, EStateM.run_bind, hset]
      exact hrun
    · have hv : (m.setV ⟨x, by omega⟩ byte).v y = if x = y then byte else m.v y := by
        rw [Machine.v, Machine.setV, Registers.get_set]
        simp [Fin.ext_iff, Machine.v]
      rw [hr, hv]
      -- Registers above `x` are set later, `x` has just been set, and those below never are.
      rcases Nat.lt_trichotomy x y with hlt | heq | hgt
      · have hsub : y - x = (y - (x + 1)) + 1 := by omega
        simp [Nat.le_of_lt hlt, Nat.ne_of_lt hlt, Nat.succ_le_of_lt hlt, hsub]
      · have hnext : ¬ y.val + 1 ≤ y := by omega
        simp [heq, hnext]
      · have hnext : ¬ x + 1 ≤ y := by omega
        simp [Nat.not_le.2 hgt, Nat.ne_of_gt hgt, hnext]

/-- The bytes that a machine has at its index fill the registers up to `x`. -/
theorem run_setRegisters_slice (m : Machine) (x : Fin 16) :
    (setRegisters 0 (m.memory.slice m.index.toNat (x + 1))).run m =
      .ok () (m.effect (.loadRegisters x)) := by
  obtain ⟨r, hrun, hr⟩ := run_setRegisters m (m.memory.slice m.index.toNat (x + 1)) 0
    (by rw [Memory.length_slice]; omega)
  -- What was set register by register is the same as filling all of them at once.
  have hfill : r = m.registers.fill x fun k => m.memory.read (m.index.toNat + k) := by
    ext1 y
    rw [hr, Registers.get_fill, if_pos (Nat.zero_le _), List.getD_eq_getElem?_getD, Nat.sub_zero]
    by_cases hy : y ≤ x
    · have hlt : y.val < (m.memory.slice m.index.toNat (x + 1)).length := by
        rw [Memory.length_slice]
        exact Nat.lt_succ_of_le hy
      rw [if_pos hy, List.getElem?_eq_getElem hlt, Memory.getElem_slice]
      rfl
    · have hle : (m.memory.slice m.index.toNat (x + 1)).length ≤ y.val := by
        rw [Memory.length_slice]
        omega
      rw [if_neg hy, List.getElem?_eq_none hle]
      rfl
  rw [hrun, hfill]
  rfl

/-- The end of a computation that turns over all `cells`. -/
def toggled (m : Machine) (cells : List Cell) : EStateM.Result Stop Machine Bool :=
  .ok (m.screen.toggleAll cells).1 { m with screen := (m.screen.toggleAll cells).2 }

theorem run_drawColumns (m : Machine) (x y : Nat) (byte : UInt8) (columns : List Nat) :
    (drawColumns x y byte columns).run m =
      toggled m ((columns.filter fun column => byte.toNat.testBit (7 - column)).map fun column =>
        Cell.wrap (x + column) y) := by
  induction columns generalizing m with
  | nil => rfl
  | cons column columns ih =>
    rw [drawColumns, List.filter_cons]
    split
    · simp [run_toggle, ih, toggled, Screen.toggleAll_cons]
    · exact ih m

/-- The rows of a sprite that lies in memory turn over its cells. -/
theorem run_drawRows (m : Machine) (x y address rows : Nat) (h : address + rows ≤ 4096) :
    (drawRows x y address rows).run m =
      toggled m (Sprite.cells x y (m.memory.slice address rows)) := by
  induction rows generalizing m y address with
  | zero => rfl
  | succ rows ih =>
    rw [Memory.slice_succ, Sprite.cells_cons, drawRows, EStateM.run_bind,
      run_loadByte m (by omega)]
    dsimp only
    rw [EStateM.run_bind, run_drawColumns, toggled]
    dsimp only
    rw [EStateM.run_bind, ih _ _ _ (by omega)]
    simp [toggled, Screen.toggleAll_append, Sprite.columns]

/-! ### Instructions and cycles -/

/-- A checked instruction is refused before its first write, or has the whole effect. The addresses
that it moves `pc` to fit as long as `pc` has room for a skip. -/
theorem run_execute (m : Machine) (hpc : m.pc.toNat + 2 < 65536) (i : Instruction) :
    (execute i).run m =
      match m.refusal i with
      | some fault => .error (.fault fault) m
      | none => .ok () (m.effect i) := by
  cases i with
  | clear => rfl
  | ret =>
    simp only [execute, Machine.refusal, Machine.effect, EStateM.run_bind, EStateM.run_get]
    cases m.stack <;> rfl
  | jump target => exact run_moveTo m (by omega)
  | call target =>
    have hmove : ∀ m : Machine,
        (moveTo target).run m = .ok () { m with pc := UInt16.ofNat target } :=
      fun m => run_moveTo m (by omega)
    simp only [execute, Machine.refusal, Machine.effect, EStateM.run_bind, EStateM.run_get]
    cases m.config.stackLimit with
    | none => simp [hmove]
    | some limit =>
      by_cases h : limit ≤ m.stack.length
      · simp [h, Machine.depth]
      · simp [h, Machine.depth, hmove]
  | skipIf condition =>
    simp only [execute, EStateM.run_bind, run_holds]
    by_cases h : m.Holds condition
    · simp [h, Machine.refusal, Machine.effect, run_moveTo _ hpc]
    · simp [h, Machine.refusal, Machine.effect]
  | setByte x byte => exact run_setRegister m x byte
  | alu op x y =>
    have heffect : m.effect (.alu op x y) =
        { m with registers := m.registers.combine m.config.normalizeShiftFlag op x y } := rfl
    simp only [execute, EStateM.run_bind, run_register, EStateM.run_get]
    rw [heffect, Registers.combine]
    unfold Machine.v
    -- Both programs read the operands first and write the flag, if there is one, before the result.
    rcases op.apply m.config.normalizeShiftFlag (m.registers.get x) (m.registers.get y) with
      ⟨result, none | carry⟩
    · exact run_setRegister m x result
    · simp [Machine.setV, Machine.refusal]
  | setIndex target => exact run_pointAt m (by omega)
  | jumpOffset base =>
    -- The sum of the base and a byte is far from the end of sixteen bits.
    have hoffset := (m.v Registers.first).toNat_lt
    have hread : (register 0).run m = .ok (m.v Registers.first) m := run_register m Registers.first
    rw [execute, EStateM.run_bind, hread]
    exact run_moveTo m (by omega)
  | draw x y rows =>
    refine run_checkRange_bind fun h => ?_
    simp only [EStateM.run_bind, EStateM.run_get, run_register, run_drawRows m _ _ _ _ h, toggled]
    exact run_setRegister _ Registers.flag _
  | pointAtDigit x =>
    have hdigit := (m.v x).toNat_lt
    rw [execute, EStateM.run_bind, run_register]
    exact run_pointAt m (by rw [Font.entry, Font.spriteSize]; omega)
  | storeDecimal x =>
    refine run_checkRange_bind fun h => ?_
    -- The three single writes are the loop over the three digits.
    have hstore : (storeBytes m.index.toNat (Machine.decimalDigits (m.v x))).run m =
        .ok () (m.effect (.storeDecimal x)) := run_storeBytes m _ m.index.toNat h
    simp only [EStateM.run_bind, EStateM.run_get, run_register]
    simpa [storeBytes, Machine.decimalDigits, Nat.add_assoc] using hstore
  | storeRegisters x =>
    refine run_checkRange_bind fun h => ?_
    simp only [EStateM.run_bind, EStateM.run_get, run_registers]
    exact run_storeBytes m _ _ (by rwa [Registers.length_upTo])
  | loadRegisters x =>
    refine run_checkRange_bind fun h => ?_
    simp only [EStateM.run_bind, EStateM.run_get, run_loadBytes m h]
    exact run_setRegisters_slice m x
  | _ => simp [execute, Machine.refusal, Machine.effect]

theorem run_fetch (m : Machine) :
    fetch.run m =
      if m.pc.toNat + 1 < 4096 then .ok m.nextWord m.fetched
      else .error (.fault (.memoryOutOfBounds (m.pc.toNat + 1))) m := by
  by_cases h : m.pc.toNat + 1 < 4096
  · have hsize : ¬ Memory.size ≤ m.pc.toNat + 1 := Nat.not_le.2 h
    have hupper := (m.memory.read m.pc.toNat).toNat_lt
    have hlower := (m.memory.read (m.pc.toNat + 1)).toNat_lt
    have hmove : ∀ m' : Machine,
        (moveTo (m.pc.toNat + 2)).run m' = .ok () { m' with pc := UInt16.ofNat (m.pc.toNat + 2) } :=
      fun m' => run_moveTo m' (by omega)
    have hword : ∀ m' : Machine,
        (narrow ((m.memory.read m.pc.toNat).toNat * 256
          + (m.memory.read (m.pc.toNat + 1)).toNat)).run m' = .ok m.nextWord m' :=
      fun m' => run_narrow m' (by omega)
    have hpc : UInt16.ofNat (m.pc.toNat + 2) = m.pc + 2 := by simp
    rw [if_pos h, fetch, EStateM.run_bind, EStateM.run_get]
    simp only [hsize, if_false, EStateM.run_bind, EStateM.run_modify,
      run_loadByte m (Nat.lt_of_succ_lt h), run_loadByte m h, hmove, hword, hpc]
    rfl
  · have hsize : Memory.size ≤ m.pc.toNat + 1 := Nat.not_lt.1 h
    rw [if_neg h, fetch, EStateM.run_bind, EStateM.run_get]
    simp [hsize]

/-- The end of a checked computation that a report tells. -/
def ofReport (report : Machine.Report) : EStateM.Result Stop Machine Unit :=
  match report.fault with
  | some fault => .error (.fault fault) report.machine
  | none => .ok () report.machine

/-- A checked cycle ends as the cycle, from every machine. -/
theorem run_cycle (m : Machine) : cycle.run m = ofReport m.cycle := by
  cases m.cycleCase with
  | paused x hwaiting hcycle =>
    rw [hcycle, Machine.awaitKey]
    simp only [cycle, EStateM.run_bind, EStateM.run_get, hwaiting]
    cases hlatch : m.keypad.latch with
    | none => simp [HexKeypad.take, hlatch, ofReport]
    | some key =>
      have hkey : key.val < 256 := Nat.lt_trans key.isLt (by decide)
      simp [HexKeypad.take, hlatch, ofReport, run_demand _ hkey]
      rfl
  | unfetched hrunning hpc hcycle =>
    rw [hcycle]
    simp [cycle, hrunning, run_fetch, Nat.not_lt.2 hpc, ofReport]
  | unreadable hrunning hpc hword hcycle =>
    rw [hcycle]
    simp [cycle, hrunning, run_fetch, hpc, hword, ofReport]
    rfl
  | refused i fault hexec hrefusal hcycle =>
    -- After the fetch `pc` is at most `0x1000`, which leaves room for a skip.
    have hinside := hexec.inside
    have hpc := Machine.toNat_pc_fetched hinside
    have hrun := run_execute m.fetched (by omega) i
    rw [hrefusal] at hrun
    rw [hcycle]
    simp [cycle, hexec.running, run_fetch, hexec.inside, hexec.reads, hrun, ofReport]
  | executed i hexec hrefusal hcycle =>
    have hinside := hexec.inside
    have hpc := Machine.toNat_pc_fetched hinside
    have hrun := run_execute m.fetched (by omega) i
    rw [hrefusal] at hrun
    rw [hcycle]
    simp [cycle, hexec.running, run_fetch, hexec.inside, hexec.reads, hrun, ofReport]

end Checked

end ChipEight
