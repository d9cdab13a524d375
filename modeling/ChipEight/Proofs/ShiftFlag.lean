import ChipEight.Proofs.Chronicle
import ChipEight.Proofs.Lockstep
import ChipEight.Proofs.StraightLine.Meaning
import Mathlib.Data.Set.Insert

/-!
# The flag of left shifts stays in the flag register

A left shift leaves the bit that falls out in the flag register, as `0x80` or as 1, whichever the
machine was made for. The choice shows nowhere else, as long as the program does not read it from
there.

* `Instruction.Reads` says which registers an instruction reads.
* `Machine.SameButRegisters` relates two machines that differ in some registers and in the choice.
  A cycle that reads none of these registers keeps the relation (`Machine.lockstep_registers`).
* `Machine.shiftFlag_stays_in_flag_register` is the statement for runs: until something reads the
  flag register after a left shift of another register, two machines with different choices give the
  same results and differ in the flag register at most.
-/

namespace ChipEight

/-! ### The registers that an instruction reads -/

/-- The condition asks for the content of register `z`. -/
def Condition.Reads (z : Fin 16) : Condition → Prop
  | .equalsByte x _ | .differsByte x _ | .keyHeld x | .keyFree x => z = x
  | .equals x y | .differs x y => z = x ∨ z = y

/-- Register `z` is an operand of the operation on the registers `x` and `y`. -/
def AluOp.Reads (z x y : Fin 16) : AluOp → Prop
  | .assign => z = y
  | .shiftRight | .shiftLeft => z = x
  | .or | .and | .xor | .add | .subtract | .subtractFrom => z = x ∨ z = y

/-- What the instruction does depends on the content of register `z`. -/
def Instruction.Reads (z : Fin 16) : Instruction → Prop
  | .skipIf condition => condition.Reads z
  | .alu op x y => op.Reads z x y
  | .addByte x _ | .setDelay x | .setSound x | .addIndex x | .pointAtDigit x | .storeDecimal x =>
    z = x
  | .draw x y _ => z = x ∨ z = y
  | .storeRegisters x => z ≤ x
  | .jumpOffset _ => z = Registers.first
  | _ => False

instance (z : Fin 16) : (c : Condition) → Decidable (c.Reads z)
  | .equalsByte x _ | .differsByte x _ | .keyHeld x | .keyFree x =>
    inferInstanceAs (Decidable (z = x))
  | .equals _ _ | .differs _ _ => inferInstanceAs (Decidable (_ ∨ _))

instance (z x y : Fin 16) : (op : AluOp) → Decidable (op.Reads z x y)
  | .assign => inferInstanceAs (Decidable (z = y))
  | .shiftRight | .shiftLeft => inferInstanceAs (Decidable (z = x))
  | .or | .and | .xor | .add | .subtract | .subtractFrom => inferInstanceAs (Decidable (_ ∨ _))

instance (z : Fin 16) : (i : Instruction) → Decidable (i.Reads z)
  | .skipIf condition => inferInstanceAs (Decidable (condition.Reads z))
  | .alu op x y => inferInstanceAs (Decidable (op.Reads z x y))
  | .addByte x _ | .setDelay x | .setSound x | .addIndex x | .pointAtDigit x | .storeDecimal x =>
    inferInstanceAs (Decidable (z = x))
  | .draw _ _ _ => inferInstanceAs (Decidable (_ ∨ _))
  | .storeRegisters x => inferInstanceAs (Decidable (z ≤ x))
  | .jumpOffset _ => inferInstanceAs (Decidable (z = Registers.first))
  | .clear | .ret | .jump _ | .call _ | .setByte _ _ | .setIndex _ | .random _ _ | .readDelay _
  | .waitKey _ | .loadRegisters _ => inferInstanceAs (Decidable False)

/-- The registers up to `x` are the same where each of them is. -/
theorem Registers.upTo_congr {r r' : Registers} {x : Fin 16} (h : ∀ z ≤ x, r'.get z = r.get z) :
    r'.upTo x = r.upTo x := by
  refine List.ext_getElem (by simp) fun k hk _ => ?_
  rw [length_upTo] at hk
  rw [getElem_upTo, getElem_upTo]
  exact h ⟨k, by omega⟩ (Nat.le_of_lt_succ hk)

/-- What an operation leaves in a register depends on its operands and on what was there. Only the
flag of a left shift depends on the choice, too. -/
theorem Registers.get_combine_congr {r r' : Registers} {normalize normalize' : Bool} {op : AluOp}
    {x y k : Fin 16} (hreads : ∀ z, op.Reads z x y → r'.get z = r.get z) (hk : r'.get k = r.get k)
    (hflag : op = .shiftLeft → x ≠ flag → k ≠ flag) :
    (r'.combine normalize' op x y).get k = (r.combine normalize op x y).get k := by
  cases op with
  | assign => simp only [combine, AluOp.apply, get_set, hk, hreads y rfl]
  | shiftRight => simp only [combine, AluOp.apply, get_set, hk, hreads x rfl]
  | shiftLeft =>
    simp only [combine, AluOp.apply, get_set, hk, hreads x rfl]
    -- the result goes on top of the flag, so the flag is left only where `x` is another register
    by_cases hx : x = k
    · rw [if_pos hx, if_pos hx]
    · have hother : flag ≠ k := fun hf => hflag rfl (fun hx' => hx (hx'.trans hf)) hf.symm
      rw [if_neg hx, if_neg hx, if_neg hother, if_neg hother]
  | or | and | xor | add | subtract | subtractFrom =>
    simp only [combine, AluOp.apply, get_set, hk, hreads x (.inl rfl), hreads y (.inr rfl)]

namespace Machine

/-! ### Machines that differ in registers -/

/-- The machine with other registers and another choice for the flag of left shifts. -/
def variant (m : Machine) (registers : Registers) (normalize : Bool) : Machine :=
  { m with registers, config := { m.config with normalizeShiftFlag := normalize } }

/-- The machines are in the same state but for the registers in `Z` and the choice for the flag of
left shifts. -/
def SameButRegisters (Z : Set (Fin 16)) (m m' : Machine) : Prop :=
  ∃ registers normalize, m' = m.variant registers normalize ∧
    ∀ y, y ∉ Z → registers.get y = m.registers.get y

variable {Z Z' : Set (Fin 16)} {m m' : Machine} {registers : Registers} {normalize : Bool}

theorem SameButRegisters.mono (h : SameButRegisters Z m m') (hsub : Z ⊆ Z') :
    SameButRegisters Z' m m' := by
  obtain ⟨registers, normalize, rfl, hsame⟩ := h
  exact ⟨registers, normalize, rfl, fun y hy => hsame y fun hZ => hy (hsub hZ)⟩

theorem SameButRegisters.symm (h : SameButRegisters Z m m') : SameButRegisters Z m' m := by
  obtain ⟨registers, normalize, rfl, hsame⟩ := h
  exact ⟨m.registers, m.config.normalizeShiftFlag, rfl, fun y hy => (hsame y hy).symm⟩

theorem holds_variant {c : Condition}
    (hreads : ∀ z, c.Reads z → registers.get z = m.registers.get z) :
    (m.variant registers normalize).Holds c ↔ m.Holds c := by
  cases c with
  | equalsByte x _ | differsByte x _ =>
    have hx : (m.variant registers normalize).v x = m.v x := hreads x rfl
    simp only [Holds, hx]
  | keyHeld x | keyFree x =>
    have hx : (m.variant registers normalize).v x = m.v x := hreads x rfl
    simp only [Holds, hx]
    rfl
  | equals x y | differs x y =>
    have hx : (m.variant registers normalize).v x = m.v x := hreads x (.inl rfl)
    have hy : (m.variant registers normalize).v y = m.v y := hreads y (.inr rfl)
    simp only [Holds, hx, hy]

/-- Apart from the registers, an instruction has the same effect where the registers that it reads
hold the same. -/
theorem effect_variant {i : Instruction} (normalize : Bool)
    (hreads : ∀ z, i.Reads z → registers.get z = m.registers.get z) :
    (m.variant registers normalize).effect i =
      (m.effect i).variant ((m.variant registers normalize).effect i).registers normalize := by
  have hv : ∀ z, i.Reads z → (m.variant registers normalize).v z = m.v z := hreads
  -- These are the instructions that carry a register into another part of the machine.
  cases i with
  | skipIf condition =>
    simp only [effect, holds_variant hreads]
    rfl
  | jumpOffset base =>
    simp only [effect, hv Registers.first rfl]
    rfl
  | setDelay x | setSound x | addIndex x | pointAtDigit x | storeDecimal x =>
    simp only [effect, hv x rfl]
    rfl
  | storeRegisters x =>
    have hblock : (m.variant registers normalize).registers.upTo x = m.registers.upTo x :=
      Registers.upTo_congr hreads
    simp only [effect, hblock]
    rfl
  | draw x y rows =>
    simp only [effect, draw, hv x (.inl rfl), hv y (.inr rfl)]
    rfl
  | _ => rfl

/-- What an instruction leaves in a register, if not the flag of a left shift, depends on the
registers that it reads and on what was there. -/
theorem get_effect_variant {i : Instruction} {k : Fin 16} (normalize : Bool)
    (hreads : ∀ z, i.Reads z → registers.get z = m.registers.get z)
    (hk : registers.get k = m.registers.get k)
    (hflag : ∀ x y, i = .alu .shiftLeft x y → x ≠ Registers.flag → k ≠ Registers.flag) :
    ((m.variant registers normalize).effect i).registers.get k =
      (m.effect i).registers.get k := by
  have hv : ∀ z, i.Reads z → (m.variant registers normalize).v z = m.v z := hreads
  have hset : ∀ x value, (registers.set x value).get k = (m.registers.set x value).get k := by
    intro x value
    rw [Registers.get_set, Registers.get_set, hk]
  cases i with
  | setByte x _ | random x _ | readDelay x => exact hset x _
  | addByte x byte =>
    simp only [effect, hv x rfl]
    exact hset x _
  | alu op x y =>
    exact Registers.get_combine_congr hreads hk fun hop => hflag x y (hop ▸ rfl)
  | draw x y rows =>
    simp only [effect, draw, hv x (.inl rfl), hv y (.inr rfl)]
    exact hset Registers.flag _
  | loadRegisters x =>
    simp only [effect, Registers.get_fill]
    split
    · rfl
    · exact hk
  | _ => exact hk

/-! ### One action -/

/-- The next cycle shifts a register other than the flag register to the left. -/
def ShiftsLeft (m : Machine) : Prop :=
  ∃ x y, x ≠ Registers.flag ∧ m.Executes (.alu .shiftLeft x y)

/-- The next cycle executes an instruction that reads register `z`. -/
def ReadsRegister (m : Machine) (z : Fin 16) : Prop :=
  ∃ i, m.Executes i ∧ i.Reads z

instance (m : Machine) (z : Fin 16) : Decidable (m.ReadsRegister z) :=
  decidable_of_iff (∃ i ∈ m.instruction?, i.Reads z)
    (exists_congr fun _ => and_congr_left' instruction?_eq_some_iff)

/-- Neither the registers nor the choice for the flag decide whether an instruction is refused. -/
theorem refusal_variant (m : Machine) (registers : Registers) (normalize : Bool)
    (i : Instruction) : (m.variant registers normalize).refusal i = m.refusal i := by
  cases i <;> rfl

theorem alike_awaitKey_variant (hsame : ∀ y, y ∉ Z → registers.get y = m.registers.get y)
    (x : Fin 16) :
    (m.awaitKey x).Alike (SameButRegisters Z) ((m.variant registers normalize).awaitKey x) := by
  have htake : (m.variant registers normalize).keypad.take = m.keypad.take := rfl
  unfold awaitKey
  rw [htake]
  split
  · exact ⟨⟨registers, normalize, rfl, hsame⟩, rfl, rfl⟩
  · next key keypad _ =>
    refine ⟨⟨registers.set x (UInt8.ofNat key), normalize, rfl, fun y hy => ?_⟩, rfl, rfl⟩
    show (registers.set x _).get y = (m.registers.set x _).get y
    rw [Registers.get_set, Registers.get_set, hsame y hy]

/-- A cycle that reads none of the registers in which two machines differ goes the same way on both.
After it they differ in no other register, unless it leaves the flag of a left shift. -/
theorem lockstep_registers (hsame : SameButRegisters Z m m') (hsub : Z ⊆ Z')
    (hunread : m.cycle.fault = none → ∀ z ∈ Z, ¬ m.ReadsRegister z)
    (hshift : m.ShiftsLeft → Registers.flag ∈ Z') : Lockstep (SameButRegisters Z') m m' := by
  obtain ⟨registers, normalize, rfl, hsame⟩ := hsame
  have hsame' : ∀ y, y ∉ Z' → registers.get y = m.registers.get y :=
    fun y hy => hsame y fun hZ => hy (hsub hZ)
  refine
    { waiting := rfl
      pc := rfl
      word := fun _ _ => rfl
      start := ⟨registers, normalize, rfl, hsame'⟩
      fetched := ⟨registers, normalize, rfl, hsame'⟩
      refusal := fun i _ => refusal_variant m.fetched registers normalize i
      effect := ?_
      awaitKey := fun x _ => alike_awaitKey_variant hsame' x }
  intro i hexec hrefusal
  have hsuccess : m.cycle.fault = none := (cycle_of_not_refused hexec hrefusal).1
  have hreads : ∀ z, i.Reads z → registers.get z = m.fetched.registers.get z := by
    intro z hz
    exact hsame z fun hZ => hunread hsuccess z hZ ⟨i, hexec, hz⟩
  have heffect := effect_variant (m := m.fetched) normalize hreads
  refine ⟨_, normalize, congrArg tickTimers heffect, fun k hk => ?_⟩
  refine get_effect_variant (m := m.fetched) normalize hreads (hsame' k hk) ?_
  rintro x y rfl hx rfl
  exact hk (hshift ⟨x, y, hx, hexec⟩)

/-- Actions other than cycles do not use the registers. -/
theorem alike_perform_registers (hsame : SameButRegisters Z m m') {action : Action}
    (haction : action ≠ .cycle) :
    (m.perform action).Alike (SameButRegisters Z) (m'.perform action) := by
  obtain ⟨registers, normalize, rfl, hsame⟩ := hsame
  cases action with
  | load program =>
    show (m.load program).Alike _ ((m.variant registers normalize).load program)
    unfold load
    split <;> exact ⟨⟨registers, normalize, rfl, hsame⟩, rfl, rfl⟩
  | cycle => exact absurd rfl haction
  | _ => exact ⟨⟨registers, normalize, rfl, hsame⟩, rfl, rfl⟩

/-- A left shift never fails. -/
theorem succeeds_of_shiftsLeft (h : m.ShiftsLeft) : m.Succeeds .cycle := by
  obtain ⟨x, y, -, hexec⟩ := h
  exact ⟨rfl, (cycle_of_not_refused hexec rfl).1⟩

/-- What is in the flag register after a left shift of another register. -/
theorem flag_cycle_of_executes {x y : Fin 16} (hx : x ≠ Registers.flag)
    (hexec : m.Executes (.alu .shiftLeft x y)) :
    m.cycle.machine.v Registers.flag =
      if m.config.normalizeShiftFlag then (m.v x &&& 0x80) >>> 7 else m.v x &&& 0x80 := by
  obtain ⟨-, hmachine⟩ := cycle_of_not_refused hexec rfl
  rw [hmachine]
  exact (Registers.get_set_of_ne _ _ hx.symm).trans (Registers.get_set_self _ _ _)

/-- The upper bit of a byte is zero or stands alone. -/
theorem and_upper_eq (byte : UInt8) : byte &&& 0x80 = 0 ∨ byte &&& 0x80 = 0x80 := by
  have hupper := AluOp.toNat_and_upper byte
  split at hupper
  · exact .inl (UInt8.toNat_inj.1 hupper)
  · exact .inr (UInt8.toNat_inj.1 hupper)

/-- A machine that differs in registers and in the choice alone executes the same instruction. -/
theorem SameButRegisters.executes (h : SameButRegisters Z m m') {i : Instruction}
    (hexec : m.Executes i) : m'.Executes i := by
  obtain ⟨registers, normalize, rfl, -⟩ := h
  exact ⟨hexec.running, hexec.inside, hexec.reads⟩

/-! ### Runs -/

/-- After a left shift of another register, nothing in the run reads the flag register. -/
def LeavesFlagUnread (m : Machine) (actions : List Action) : Prop :=
  (m.successes actions).Pairwise fun s t => s.ShiftsLeft → ¬ t.ReadsRegister Registers.flag

/-- The flag register, once a left shift of another register is among the actions. -/
def shifted (m : Machine) (actions : List Action) : Set (Fin 16) :=
  { z | z = Registers.flag ∧ ∃ s ∈ m.successes actions, s.ShiftsLeft }

theorem shifted_subset (m : Machine) (actions : List Action) :
    m.shifted actions ⊆ {Registers.flag} :=
  fun _ hz => hz.1

theorem shifted_subset_concat (m : Machine) (actions : List Action) (action : Action) :
    m.shifted actions ⊆ m.shifted (actions ++ [action]) := by
  rintro z ⟨rfl, s, hs, hshift⟩
  refine ⟨rfl, s, ?_, hshift⟩
  rw [successes_append]
  exact List.mem_append_left _ hs

/-- Two machines that differ in the choice at most go through a run in the same way and come to
differ in the flag register at most, if nothing reads it once it holds the flag of a left shift. -/
theorem alike_after_of_unread (hstart : SameButRegisters ∅ m m') {actions : List Action}
    (hunread : m.LeavesFlagUnread actions) :
    (∀ before after, actions = before ++ after →
      SameButRegisters {Registers.flag} (m.after before) (m'.after before)) ∧
      ∀ before action after, actions = before ++ action :: after →
        ((m.after before).perform action).Alike (SameButRegisters {Registers.flag})
          ((m'.after before).perform action) := by
  -- The machines differ in no register up to the first left shift, and in the flag register from
  -- there on.
  have hstep : ∀ before action after, actions = before ++ action :: after →
      SameButRegisters (m.shifted before) (m.after before) (m'.after before) →
        ((m.after before).perform action).Alike (SameButRegisters (m.shifted (before ++ [action])))
          ((m'.after before).perform action) := by
    intro before action after hsplit hsame
    have hgrows := m.shifted_subset_concat before action
    by_cases haction : action = .cycle
    · subst haction
      refine (lockstep_registers hsame hgrows ?_ ?_).cycle
      · -- a cycle of the run that succeeds comes after all that is in the chronicle so far
        rintro hsuccess z ⟨rfl, s, hs, hshift⟩ hreads
        rw [LeavesFlagUnread, hsplit, successes_append,
          successes_cons_of_succeeds ⟨rfl, hsuccess⟩, List.pairwise_append] at hunread
        exact hunread.2.2 s hs _ List.mem_cons_self hshift hreads
      · intro hshift
        refine ⟨rfl, m.after before, ?_, hshift⟩
        rw [successes_append, successes_cons_of_succeeds (succeeds_of_shiftsLeft hshift)]
        exact List.mem_append_right _ List.mem_cons_self
    · exact alike_perform_registers (hsame.mono hgrows) haction
  obtain ⟨hstates, hreports⟩ := alike_after (R := fun before => SameButRegisters (m.shifted before))
    (hstart.mono (Set.empty_subset _)) hstep
  refine ⟨fun before after hsplit => (hstates before after hsplit).mono (m.shifted_subset _), ?_⟩
  intro before action after hsplit
  obtain ⟨hmachine, hfault, hlog⟩ := hreports before action after hsplit
  exact ⟨hmachine.mono (m.shifted_subset _), hfault, hlog⟩

/-- The machine with the given choice for the flag of left shifts. -/
def normalizing (m : Machine) (normalize : Bool) : Machine :=
  m.variant m.registers normalize

theorem sameButRegisters_normalizing (m : Machine) (normalize normalize' : Bool) :
    SameButRegisters ∅ (m.normalizing normalize) (m.normalizing normalize') :=
  ⟨m.registers, normalize', rfl, fun _ _ => rfl⟩

/-- The two machines that are made for the one and the other choice go through a run in the same
way. It is enough to know of either of them that nothing reads the flag of a left shift. -/
theorem normalizing_after_of_unread {actions : List Action} {normalize : Bool}
    (hunread : (m.normalizing normalize).LeavesFlagUnread actions) :
    (∀ before after, actions = before ++ after →
      SameButRegisters {Registers.flag} ((m.normalizing false).after before)
        ((m.normalizing true).after before)) ∧
      ∀ before action after, actions = before ++ action :: after →
        let report := ((m.normalizing false).after before).perform action
        let report' := ((m.normalizing true).after before).perform action
        report'.fault = report.fault ∧ report'.log = report.log := by
  cases normalize with
  | false =>
    obtain ⟨hstates, hreports⟩ :=
      alike_after_of_unread (m.sameButRegisters_normalizing false true) hunread
    refine ⟨hstates, fun before action after hsplit => ?_⟩
    obtain ⟨-, hfault, hlog⟩ := hreports before action after hsplit
    exact ⟨hfault, hlog⟩
  | true =>
    -- the other way round
    obtain ⟨hstates, hreports⟩ :=
      alike_after_of_unread (m.sameButRegisters_normalizing true false) hunread
    refine ⟨fun before after hsplit => (hstates before after hsplit).symm, ?_⟩
    intro before action after hsplit
    obtain ⟨-, hfault, hlog⟩ := hreports before action after hsplit
    exact ⟨hfault.symm, hlog.symm⟩

/-- A left shift of a register that holds the same on both machines drops the same bit, which each
of them leaves in the flag register in its own way. -/
theorem SameButRegisters.flag_cycle (h : SameButRegisters {Registers.flag} m m')
    (hraw : m.config.normalizeShiftFlag = false)
    (hnormalized : m'.config.normalizeShiftFlag = true) (hshift : m.ShiftsLeft) :
    let flag := (m.act .cycle).v Registers.flag
    let flag' := (m'.act .cycle).v Registers.flag
    flag = 0 ∧ flag' = 0 ∨ flag = 0x80 ∧ flag' = 1 := by
  intro flag flag'
  obtain ⟨x, y, hx, hexec⟩ := hshift
  have hflag : flag = m.v x &&& 0x80 :=
    (flag_cycle_of_executes hx hexec).trans (by rw [hraw]; rfl)
  have hflag' : flag' = (m.v x &&& 0x80) >>> 7 := by
    have hexec' := h.executes hexec
    obtain ⟨registers, normalize, hvariant, hregisters⟩ := h
    have hoperand : m'.v x = m.v x := by
      rw [hvariant]
      exact hregisters x hx
    exact (flag_cycle_of_executes hx hexec').trans (by rw [hnormalized, hoperand]; rfl)
  rw [hflag, hflag']
  rcases and_upper_eq (m.v x) with hzero | hone
  · rw [hzero]
    exact .inl ⟨rfl, rfl⟩
  · rw [hone]
    exact .inr ⟨rfl, rfl⟩

/-- The choice for the flag of left shifts influences nothing but the flag register. Take two
machines that differ only in this choice, and a run in which, on one of them, no instruction reads
the flag register after a left shift of another register. Then each action gives the same result on
both, and their states differ in the flag register at most. Right after a left shift of another
register the flag register is 0 on both, or `0x80` on the one and 1 on the other. -/
theorem shiftFlag_stays_in_flag_register (m : Machine) (actions : List Action)
    (hunread : ∃ normalize, (m.normalizing normalize).LeavesFlagUnread actions) :
    let raw := m.normalizing false
    let normalized := m.normalizing true
    (∀ before after, actions = before ++ after →
      SameButRegisters {Registers.flag} (raw.after before) (normalized.after before)) ∧
      (∀ before action after, actions = before ++ action :: after →
        let report := (raw.after before).perform action
        let report' := (normalized.after before).perform action
        report'.fault = report.fault ∧ report'.log = report.log) ∧
      ∀ before after, actions = before ++ .cycle :: after → (raw.after before).ShiftsLeft →
        let flag := ((raw.after before).act .cycle).v Registers.flag
        let flag' := ((normalized.after before).act .cycle).v Registers.flag
        flag = 0 ∧ flag' = 0 ∨ flag = 0x80 ∧ flag' = 1 := by
  intro raw normalized
  obtain ⟨normalize, hunread⟩ := hunread
  obtain ⟨hstates, hreports⟩ := normalizing_after_of_unread hunread
  refine ⟨hstates, hreports, fun before after hsplit hshift => ?_⟩
  have hraw : (raw.after before).config.normalizeShiftFlag = false := by
    rw [config_after]
    rfl
  have hnormalized : (normalized.after before).config.normalizeShiftFlag = true := by
    rw [config_after]
    rfl
  exact (hstates before (.cycle :: after) hsplit).flag_cycle hraw hnormalized hshift

/-- A left shift drops a bit; its result and what lies beside it are stored in memory while a key
is pressed. Only the flag register tells the two machines apart. -/
theorem shiftFlag_stays_in_flag_register_stored :
    let program : List Instruction :=
      [.setByte 0 0x81, .setIndex 0x300, .alu .shiftLeft 0 1, .storeRegisters 2]
    let m := Machine.new {} (Vector.replicate 8 0)
    let before : List Action := [.load (Instruction.assemble program), .cycle, .cycle]
    let after : List Action := [.key (.press 3), .cycle]
    let raw := m.normalizing false
    let normalized := m.normalizing true
    raw.LeavesFlagUnread (before ++ .cycle :: after) ∧ (raw.after before).ShiftsLeft ∧
      ((raw.after before).act .cycle).v Registers.flag = 0x80 ∧
      ((normalized.after before).act .cycle).v Registers.flag = 1 ∧
      SameButRegisters {Registers.flag} (raw.after (before ++ .cycle :: after))
        (normalized.after (before ++ .cycle :: after)) := by
  intro program m before after raw normalized
  -- the run is evaluated once for all that has to be known of it
  obtain ⟨hreads, hshift, hdropped⟩ :
      (∀ s ∈ raw.successes (before ++ .cycle :: after), ¬ s.ReadsRegister Registers.flag) ∧
        (raw.after before).instruction? = some (.alu .shiftLeft 0 1) ∧
        ((raw.after before).act .cycle).v Registers.flag ≠ 0 := by
    decide +kernel
  have hunread : raw.LeavesFlagUnread (before ++ .cycle :: after) :=
    List.pairwise_of_forall_mem_list fun _ _ t ht _ => hreads t ht
  have hshifts : (raw.after before).ShiftsLeft :=
    ⟨0, 1, by decide, instruction?_eq_some_iff.1 hshift⟩
  obtain ⟨hstates, -, hflags⟩ :=
    shiftFlag_stays_in_flag_register m (before ++ .cycle :: after) ⟨false, hunread⟩
  rcases hflags before after rfl hshifts with ⟨hzero, -⟩ | ⟨hraw, hnormalized⟩
  · exact absurd hzero hdropped
  · exact ⟨hunread, hshifts, hraw, hnormalized, hstates _ [] (List.append_nil _).symm⟩

end Machine

end ChipEight
