import ChipEight.Proofs.StraightLine.Execution

/-!
# Operations on registers that coincide

The two registers of an operation may be the same, and either of them may be the flag register. The
rule is the same in all these cases: result and flag are computed from the numbers before the
instruction, the flag is stored first and the result on top of it. So the flag register keeps the
flag unless it is to receive the result.

* `Values.v_combine` is this rule in terms of numbers, for every register.
* `Machine.arithmetic_under_aliasing` is the same for a cycle of the machine, by the word that is
  next. It covers the addition of a byte too, which sets no flag.
-/

namespace ChipEight

namespace Values

variable (s : Values) (normalize : Bool) (op : AluOp)

/-- The registers after an operation: the result is in `x`, also where `x` is the flag register, and
the flag register has the flag otherwise, if the operation sets one. -/
theorem v_combine (x y k : Fin 16) :
    (s.combine normalize op x y).v k =
      if x = k then op.value (s.v x) (s.v y)
      else if Registers.flag = k then
        (op.flagValue normalize (s.v x) (s.v y)).getD (s.v Registers.flag)
      else s.v k := by
  unfold combine
  cases op.flagValue normalize (s.v x) (s.v y) with
  | some flag => rfl
  | none =>
    -- without a flag, the flag register is one like the others
    show (if x = k then _ else s.v k) = _
    split
    · rfl
    · split
      · next hflag => rw [Option.getD_none, hflag]
      · rfl

end Values

namespace Machine

variable {m : Machine} {i : Instruction}

/-- A straight-line instruction that is next succeeds and does what the table says. -/
theorem values_cycle_of_isStraight (hexec : m.Executes i) (hstraight : i.IsStraight) :
    m.cycle.fault = none ∧
      m.cycle.machine.values = (m.values.perform m.config.normalizeShiftFlag i).tick := by
  obtain ⟨hfault, hcomputed⟩ := (computed_nil m).cycle hexec hstraight
  exact ⟨hfault, hcomputed.values⟩

/-- A register is the same byte if it holds the same number. -/
theorem v_eq_of_values {m' : Machine} {k : Fin 16} (h : m'.values.v k = m.values.v k) :
    m'.v k = m.v k :=
  UInt8.toNat_inj.1 h

/-- Operations on registers, whichever of them coincide. For the registers `x` and `y` of a word
`8xy_`, result and flag are computed from the numbers that the registers hold before the cycle.
Afterwards `x` holds the result. The flag register holds the result if it is `x`, and otherwise the
flag or, for an operation without one, what it held before. All other registers stay the same. A
word `7xnn` adds to `x` and changes no other register, not even the flag register. -/
theorem arithmetic_under_aliasing (m : Machine) (hrunning : m.waiting = none)
    (hinside : m.pc.toNat + 1 < 4096) (x : Fin 16) :
    let m' := m.cycle.machine
    let p := (m.v x).toNat
    (∀ (op : AluOp) (y : Fin 16), m.nextWord = Word.ofDigits 0x8 x y op.digit →
      let q := (m.v y).toNat
      let result := op.value p q
      let flag := op.flagValue m.config.normalizeShiftFlag p q
      m.cycle.fault = none ∧ (m'.v x).toNat = result ∧
        (m'.v Registers.flag).toNat =
          (if x = Registers.flag then result else flag.getD (m.v Registers.flag).toNat) ∧
        ∀ k, k ≠ x → k ≠ Registers.flag → m'.v k = m.v k) ∧
      ∀ byte : UInt8, m.nextWord = Word.ofByte 0x7 x byte →
        m.cycle.fault = none ∧ (m'.v x).toNat = (p + byte.toNat) % 256 ∧
          ∀ k, k ≠ x → m'.v k = m.v k := by
  intro m' p
  refine ⟨fun op y hword => ?_, fun byte hword => ?_⟩
  · intro q result flag
    have hexec : m.Executes (.alu op x y) := executes_of_nextWord hrunning hinside hword
    obtain ⟨hfault, hvalues⟩ := values_cycle_of_isStraight hexec (.alu op x y)
    -- the timers are not among the registers
    have hv : ∀ k, m'.values.v k = if x = k then result
        else if Registers.flag = k then flag.getD (m.v Registers.flag).toNat
        else m.values.v k := fun k =>
      (congrFun (congrArg Values.v hvalues) k).trans (m.values.v_combine _ op x y k)
    refine ⟨hfault, ?_, ?_, fun k hx hflag => ?_⟩
    · exact (hv x).trans (if_pos rfl)
    · refine (hv Registers.flag).trans ?_
      rw [if_pos rfl]
    · apply v_eq_of_values
      rw [hv k, if_neg hx.symm, if_neg hflag.symm]
  · have hexec : m.Executes (.addByte x byte) := executes_of_nextWord hrunning hinside hword
    obtain ⟨hfault, hvalues⟩ := values_cycle_of_isStraight hexec (.addByte x byte)
    have hv : ∀ k, m'.values.v k = if x = k then (p + byte.toNat) % 256 else m.values.v k :=
      fun k => congrFun (congrArg Values.v hvalues) k
    refine ⟨hfault, (hv x).trans (if_pos rfl), fun k hx => v_eq_of_values ?_⟩
    rw [hv k, if_neg hx.symm]

/-- The flag register is subtracted from register 0. It is the operand that goes in, not the flag
that comes out, so 3 less 5 is 254, and the borrow is there afterwards. -/
theorem arithmetic_under_aliasing_borrow :
    let program : List Instruction := [.setByte 0 3, .setByte 15 5, .alu .subtract 0 15]
    let m := (Machine.new {} (Vector.replicate 8 0)).after
      [.load (Instruction.assemble program), .cycle, .cycle]
    m.waiting = none ∧ m.pc.toNat + 1 < 4096 ∧ m.nextWord = Word.ofDigits 0x8 0 15 0x5 ∧
      (m.cycle.machine.v 0).toNat = 254 ∧ (m.cycle.machine.v Registers.flag).toNat = 1 := by
  intro program m
  obtain ⟨hrunning, hinside, hword, hp, hq⟩ :
      m.waiting = none ∧ m.pc.toNat + 1 < 4096 ∧ m.nextWord = Word.ofDigits 0x8 0 15 0x5 ∧
        (m.v 0).toNat = 3 ∧ (m.v 15).toNat = 5 := by
    decide +kernel
  obtain ⟨-, hresult, hflag, -⟩ :=
    (arithmetic_under_aliasing m hrunning hinside 0).1 .subtract 15 hword
  rw [hp, hq] at hresult hflag
  exact ⟨hrunning, hinside, hword, hresult, hflag⟩

end Machine

end ChipEight
