import ChipEight.Proofs.Checked.Agreement

/-!
# How a cycle ends

Whether a cycle succeeds, and with which fault it ends if not, can be told beforehand from the word
at `pc`, the index, the stack and the limit on calls. `Machine.faultDue` tells it from the digits of
the word, without reading the word as an instruction; `cycle_ends_as_due` shows that every cycle of
every machine ends that way.

Which words are instructions at all is told by the table `Word.forms`, which lists the 34 ways to
write one. A word is read exactly if it has one of these forms (`Instruction.isSome_decode?_iff`).
-/

namespace ChipEight

namespace Word

/-- What the words of an instruction have in common. -/
inductive Form where
  /-- There is only one word. -/
  | only (word : UInt16)
  /-- The first digit is given. -/
  | first (a : Nat)
  /-- The first and the last digit are given. -/
  | firstAndLast (a n : Nat)
  /-- The first and the last two digits are given. -/
  | firstAndByte (a : Nat) (byte : UInt8)
deriving DecidableEq, Repr

/-- The word is written in this form. -/
def Form.Fits (w : UInt16) : Form → Prop
  | only word => w = word
  | first a => family w = a
  | firstAndLast a d => family w = a ∧ (n w).val = d
  | firstAndByte a b => family w = a ∧ byte w = b

instance (w : UInt16) (form : Form) : Decidable (form.Fits w) := by
  cases form <;> unfold Form.Fits <;> infer_instance

/-- The forms in which instructions are written. -/
def forms : List Form :=
  [.only 0x00E0, .only 0x00EE, .first 0x1, .first 0x2, .first 0x3, .first 0x4,
    .firstAndLast 0x5 0x0, .first 0x6, .first 0x7,
    .firstAndLast 0x8 0x0, .firstAndLast 0x8 0x1, .firstAndLast 0x8 0x2, .firstAndLast 0x8 0x3,
    .firstAndLast 0x8 0x4, .firstAndLast 0x8 0x5, .firstAndLast 0x8 0x6, .firstAndLast 0x8 0x7,
    .firstAndLast 0x8 0xE, .firstAndLast 0x9 0x0, .first 0xA, .first 0xB, .first 0xC, .first 0xD,
    .firstAndByte 0xE 0x9E, .firstAndByte 0xE 0xA1,
    .firstAndByte 0xF 0x07, .firstAndByte 0xF 0x0A, .firstAndByte 0xF 0x15, .firstAndByte 0xF 0x18,
    .firstAndByte 0xF 0x1E, .firstAndByte 0xF 0x29, .firstAndByte 0xF 0x33, .firstAndByte 0xF 0x55,
    .firstAndByte 0xF 0x65]

/-- The word has one of the forms in which instructions are written. -/
def IsDefined (w : UInt16) : Prop :=
  ∃ form ∈ forms, form.Fits w

instance (w : UInt16) : Decidable (IsDefined w) := by
  unfold IsDefined
  infer_instance

section
variable {a d : Nat} {b : UInt8} (r s : Fin 16)

theorem isDefined_of_first {w : UInt16} (hform : .first a ∈ forms) (h : family w = a) :
    IsDefined w :=
  ⟨.first a, hform, h⟩

theorem isDefined_ofDigits (hform : .firstAndLast a d ∈ forms) (ha : a < 16) (hd : d < 16) :
    IsDefined (ofDigits a r s d) := by
  refine ⟨.firstAndLast a d, hform, family_ofDigits r s ha hd, ?_⟩
  rw [n_ofDigits r s ha hd]

theorem isDefined_ofByte (hform : .firstAndByte a b ∈ forms) (ha : a < 16) :
    IsDefined (ofByte a r b) :=
  ⟨.firstAndByte a b, hform, family_ofByte r b ha, byte_ofByte r b ha⟩

end

end Word

namespace Instruction

open Word

theorem isDefined_encode (i : Instruction) : IsDefined i.encode := by
  cases i with
  | clear => exact ⟨.only 0x00E0, by decide, rfl⟩
  | ret => exact ⟨.only 0x00EE, by decide, rfl⟩
  | jump target | call target | setIndex target | jumpOffset target =>
    exact isDefined_of_first (by decide) (family_ofAddress target (by decide))
  | setByte x byte | addByte x byte | random x byte =>
    exact isDefined_of_first (by decide) (family_ofByte x byte (by decide))
  | draw x y rows =>
    exact isDefined_of_first (by decide) (family_ofDigits x y (by decide) rows.isLt)
  | alu op x y => cases op <;> exact isDefined_ofDigits x y (by decide) (by decide) (by decide)
  | skipIf condition =>
    cases condition with
    | equalsByte x byte | differsByte x byte =>
      exact isDefined_of_first (by decide) (family_ofByte x byte (by decide))
    | equals x y | differs x y => exact isDefined_ofDigits x y (by decide) (by decide) (by decide)
    | keyHeld x | keyFree x => exact isDefined_ofByte x (by decide) (by decide)
  | readDelay x | waitKey x | setDelay x | setSound x | addIndex x | pointAtDigit x
  | storeDecimal x | storeRegisters x | loadRegisters x =>
    exact isDefined_ofByte x (by decide) (by decide)

theorem isSome_decode?_of_fits {w : UInt16} :
    ∀ form ∈ forms, form.Fits w → (decode? w).isSome := by
  simp only [forms, List.forall_mem_cons, List.not_mem_nil, false_imp_iff, implies_true, and_true,
    Form.Fits]
  -- the two words that stand alone are read by evaluation, the others by their digits
  refine ⟨fun h => h ▸ rfl, fun h => h ▸ rfl, ?_⟩
  and_intros
  all_goals
    intro h
    simp [decode?, ofKeyCode?, ofTransferCode?, AluOp.ofDigit?, h]

/-- A word can be read exactly if it has one of the forms. -/
theorem isSome_decode?_iff {w : UInt16} : (decode? w).isSome ↔ IsDefined w := by
  constructor
  · intro h
    obtain ⟨i, hi⟩ := Option.isSome_iff_exists.1 h
    rw [← encode_of_decode? hi]
    exact isDefined_encode i
  · rintro ⟨form, hform, hfits⟩
    exact isSome_decode?_of_fits form hform hfits

end Instruction

namespace Machine

open Word

/-- The fault with which the instruction word `w` is refused, by its digits. -/
def refusalDue (m : Machine) (w : UInt16) : Option Fault :=
  let start := m.index.toNat
  match family w with
  | 0x0 => if w = 0x00EE ∧ m.stack = [] then some (.stackUnderflow m.pc) else none
  | 0x2 =>
    match m.config.stackLimit with
    | some limit => if limit ≤ m.stack.length then some (.stackOverflow m.pc limit) else none
    | none => none
  | 0xD =>
    if 4096 < start + (n w).val then some (.memoryOutOfBounds (start + (n w).val - 1)) else none
  | 0xF =>
    if byte w = 0x33 ∧ 4096 < start + 3 then some (.memoryOutOfBounds (start + 2))
    else if (byte w = 0x55 ∨ byte w = 0x65) ∧ 4096 < start + (x w).val + 1 then
      some (.memoryOutOfBounds (start + (x w).val))
    else none
  | _ => none

/-- The fault with which the next cycle ends. -/
def faultDue (m : Machine) : Option Fault :=
  if m.waiting.isSome then none
  else if 4096 ≤ m.pc.toNat + 1 then some (.memoryOutOfBounds (m.pc.toNat + 1))
  else if ¬ IsDefined m.nextWord then some (.unknownOpcode m.nextWord m.pc)
  else m.refusalDue m.nextWord

theorem rangeFault_eq (m : Machine) (count : Nat) :
    m.rangeFault count =
      if 4096 < m.index.toNat + count then
        some (.memoryOutOfBounds (m.index.toNat + count - 1))
      else none := by
  unfold rangeFault
  simp only [Memory.spans_iff, ← Nat.not_lt, ite_not]
  rfl

/-- An instruction is refused as the digits of its word tell. -/
theorem refusal_fetched (m : Machine) (i : Instruction) :
    m.fetched.refusal i = m.refusalDue i.encode := by
  have hrange (count : Nat) : m.fetched.rangeFault count =
      if 4096 < m.index.toNat + count then
        some (.memoryOutOfBounds (m.index.toNat + count - 1))
      else none := m.fetched.rangeFault_eq count
  cases i with
  | clear => rfl
  | ret =>
    show (if m.stack = [] then some (Fault.stackUnderflow m.pc) else none) = _
    simp [refusalDue, Instruction.encode, family]
  | call target =>
    have hfamily : family (Instruction.call target).encode = 0x2 :=
      family_ofAddress target (by decide)
    have hlimit : m.fetched.config.stackLimit = m.config.stackLimit := rfl
    rw [refusal, refusalDue, hfamily, hlimit]
    cases m.config.stackLimit <;> rfl
  | skipIf condition =>
    cases condition <;> simp [refusal, refusalDue, Instruction.encode, Condition.encode]
  | draw x y rows => simp [refusal, refusalDue, Instruction.encode, hrange]
  | storeDecimal x => simp [refusal, refusalDue, Instruction.encode, hrange]
  | storeRegisters x | loadRegisters x =>
    -- the block is one byte longer than the number of the last register
    simp [refusal, refusalDue, Instruction.encode, hrange, Nat.add_assoc]
  | _ => simp [refusal, refusalDue, Instruction.encode]

theorem faultDue_of_running {m : Machine} (hrunning : m.waiting = none) :
    m.faultDue =
      if 4096 ≤ m.pc.toNat + 1 then some (.memoryOutOfBounds (m.pc.toNat + 1))
      else if ¬ IsDefined m.nextWord then some (.unknownOpcode m.nextWord m.pc)
      else m.refusalDue m.nextWord :=
  if_neg (by rw [hrunning]; decide)

theorem faultDue_of_executes {m : Machine} {i : Instruction} (hexec : m.Executes i) :
    m.faultDue = m.fetched.refusal i := by
  have hword : i.encode = m.nextWord := Instruction.encode_of_decode? hexec.reads
  have hdefined : IsDefined m.nextWord := hword ▸ Instruction.isDefined_encode i
  rw [faultDue_of_running hexec.running, if_neg (Nat.not_le.2 hexec.inside),
    if_neg (not_not_intro hdefined), refusal_fetched, hword]

/-- Every cycle succeeds or fails as it has to, and never in any other way. -/
theorem cycle_ends_as_due (m : Machine) :
    m.cycle.fault = m.faultDue ∧
      Checked.cycle.run m =
        match m.faultDue with
        | some fault => .error (.fault fault) m.cycle.machine
        | none => .ok () m.cycle.machine := by
  have hfault : m.cycle.fault = m.faultDue := by
    cases m.cycleCase with
    | paused x hwaiting hcycle =>
      have hdue : m.faultDue = none := if_pos (by rw [hwaiting]; rfl)
      rw [hdue, hcycle, awaitKey]
      split <;> rfl
    | unfetched hrunning hpc hcycle =>
      rw [hcycle, faultDue_of_running hrunning, if_pos hpc]
    | unreadable hrunning hpc hword hcycle =>
      -- a word that cannot be read has none of the forms
      have hdefined : ¬ IsDefined m.nextWord := by
        rw [← Instruction.isSome_decode?_iff, hword]
        decide
      rw [hcycle, faultDue_of_running hrunning, if_neg (Nat.not_le.2 hpc), if_pos hdefined]
    | refused i fault hexec hrefusal hcycle =>
      rw [hcycle, faultDue_of_executes hexec, hrefusal]
    | executed i hexec hrefusal hcycle =>
      rw [hcycle, faultDue_of_executes hexec, hrefusal]
  refine ⟨hfault, ?_⟩
  rw [Checked.run_cycle]
  cases hdue : m.faultDue <;> simp only [Checked.ofReport, hfault, hdue]

end Machine

end ChipEight
