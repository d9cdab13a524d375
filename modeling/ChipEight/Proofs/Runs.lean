import ChipEight.Proofs.CycleCases

/-!
# Runs

An `Action` is something that happens to a machine from outside: a program is loaded, a cycle
passes, or the keypad or the screen is used directly. A run is a list of actions, and
`Machine.after` is the machine at its end. A cycle or a load that fails does not end a run; it goes
on from the machine that the failure left behind.

A stretch of cycles, on the other hand, ends with the first cycle that fails. `cycles_add_of_fault`
and `cycles_add_of_success` say what two stretches in a row amount to.
-/

namespace ChipEight

/-- Something that happens to a machine. -/
inductive Action where
  /-- A program is loaded. -/
  | load (program : List UInt8)
  /-- One cycle passes. -/
  | cycle
  /-- The keypad is used. -/
  | key (event : KeyEvent)
  /-- Someone else takes the latched press. -/
  | takeKey
  /-- The pixel at `cell` is turned over. -/
  | toggle (cell : Cell)
  /-- All pixels are put out. -/
  | clear
  /-- The screen is shown. -/
  | present
deriving DecidableEq, Repr

namespace Machine

/-- What an action leaves behind. -/
def perform (m : Machine) : Action → Report
  | .load program => m.load program
  | .cycle => m.cycle
  | .key event => ⟨{ m with keypad := m.keypad.handle event }, none, []⟩
  | .takeKey => ⟨{ m with keypad := m.keypad.take.2 }, none, []⟩
  | .toggle cell => ⟨{ m with screen := (m.screen.toggle cell).2 }, none, []⟩
  | .clear => ⟨{ m with screen := m.screen.clear }, none, []⟩
  | .present => ⟨{ m with screen := m.screen.present }, none, []⟩

/-- The machine after an action. -/
def act (m : Machine) (action : Action) : Machine :=
  (m.perform action).machine

/-- The machine after a run. -/
def after (m : Machine) (actions : List Action) : Machine :=
  actions.foldl act m

@[simp] theorem after_nil (m : Machine) : m.after [] = m := rfl

theorem after_cons (m : Machine) (action : Action) (actions : List Action) :
    m.after (action :: actions) = (m.act action).after actions := rfl

theorem after_append (m : Machine) (first second : List Action) :
    m.after (first ++ second) = (m.after first).after second :=
  List.foldl_append

/-- The machine after one action more of a run; after its last action nothing happens. -/
theorem after_take_succ (m : Machine) (actions : List Action) (n : Nat) :
    m.after (actions.take (n + 1)) = (m.after (actions.take n)).after actions[n]?.toList := by
  rw [List.take_add_one, after_append]

/-- A program that fits goes into memory. -/
theorem load_of_le (m : Machine) {program : List UInt8} (h : program.length ≤ 3584) :
    m.load program =
      ⟨{ m with memory := m.memory.write Memory.programStart program }, none,
        [.loaded program.length Memory.programStart]⟩ :=
  if_neg (Nat.not_lt.2 h)

/-- A program that does not fit is refused. -/
theorem load_of_lt (m : Machine) {program : List UInt8} (h : 3584 < program.length) :
    m.load program =
      ⟨m, some (.programTooLarge program.length Memory.programCapacity), []⟩ :=
  if_pos h

/-- A load changes the memory at most. -/
theorem act_load (m : Machine) (program : List UInt8) :
    m.act (.load program) =
      { m with
        memory :=
          if Memory.programCapacity < program.length then m.memory
          else m.memory.write Memory.programStart program } := by
  rw [act, perform, load]
  split <;> rfl

/-- What holds of a machine and is kept by every action holds after every run. -/
theorem after_induction {P : Machine → Prop} (hact : ∀ m action, P m → P (m.act action))
    {m : Machine} (hm : P m) (actions : List Action) : P (m.after actions) := by
  induction actions generalizing m with
  | nil => exact hm
  | cons action actions ih =>
    rw [after_cons]
    exact ih (hact m action hm)

theorem config_act (m : Machine) (action : Action) : (m.act action).config = m.config := by
  cases action with
  | load program => rw [act_load]
  | cycle =>
    show m.cycle.machine.config = m.config
    cases m.cycleCase with
    | paused x hwaiting hcycle =>
      rw [hcycle, awaitKey]
      split <;> rfl
    | executed i hexec hrefusal hcycle =>
      rw [hcycle]
      exact config_effect m.fetched i
    | unfetched hrunning hpc hcycle => rw [hcycle]
    | unreadable hrunning hpc hword hcycle =>
      rw [hcycle]
      rfl
    | refused i fault hexec hrefusal hcycle =>
      rw [hcycle]
      rfl
  | _ => rfl

theorem config_after (m : Machine) (actions : List Action) :
    (m.after actions).config = m.config :=
  after_induction (P := fun m' => m'.config = m.config)
    (fun m' action hm' => (config_act m' action).trans hm') rfl actions

/-! ### A stretch of cycles in two parts -/

theorem Stretch.run_add {s : Stretch} {n : Nat} (h : (s.run n).fault = none) (later : Nat) :
    s.run (n + later) = (s.run n).run later := by
  induction n generalizing s with
  | zero => rw [Nat.zero_add, run_zero]
  | succ n ih =>
    rw [Nat.add_right_comm, run_succ, run_succ]
    rw [run_succ] at h
    split
    · next hfault =>
      -- The first cycle would have failed, and the stretch would have ended with it.
      rw [if_pos hfault] at h
      rw [h] at hfault
      cases hfault
    · next hfault =>
      rw [if_neg hfault] at h
      exact ih h

/-- A stretch that has failed goes no further. -/
theorem cycles_add_of_fault {m : Machine} {n : Nat} {fault : Fault}
    (h : (m.cycles n).fault = some fault) (later : Nat) : m.cycles (n + later) = m.cycles n := by
  induction n generalizing m with
  | zero => cases h
  | succ n ih =>
    rw [Nat.add_right_comm]
    cases hcycle : m.cycle.fault with
    | some first => rw [cycles_succ_of_fault hcycle, cycles_succ_of_fault hcycle]
    | none =>
      -- The fault is one of the cycles after the first, which the hypothesis covers.
      rw [cycles_succ_of_success hcycle] at h
      rw [cycles_succ_of_success hcycle, cycles_succ_of_success hcycle, ih h]

/-- A stretch that has not failed goes on from the machine that it has reached. -/
theorem cycles_add_of_success {m : Machine} {n : Nat} (h : (m.cycles n).fault = none)
    (later : Nat) :
    m.cycles (n + later) = (m.cycles n).append ((m.cycles n).machine.cycles later) := by
  have hrun : m.cycles (n + later) = (m.cycles n).run later := Stretch.run_add h later
  rw [hrun, Stretch.run_eq_append _ h]

/-- A cycle that succeeds makes a stretch one longer. -/
theorem cycles_succ_last {m : Machine} {n : Nat} (h : (m.cycles n).fault = none)
    (hcycle : (m.cycles n).machine.cycle.fault = none) :
    (m.cycles (n + 1)).machine = (m.cycles n).machine.cycle.machine ∧
      (m.cycles (n + 1)).ran = (m.cycles n).ran + 1 ∧ (m.cycles (n + 1)).fault = none := by
  rw [cycles_add_of_success h 1, cycles_succ_of_success hcycle 0]
  refine ⟨rfl, ?_, rfl⟩
  simp only [Stretch.append, Stretch.extend, Stretch.start, hcycle, cycles_zero]
  rfl

end Machine

/-! ### Programs -/

namespace Instruction

/-- The two bytes of an instruction in a program, the upper half of its word first. -/
def bytes (i : Instruction) : List UInt8 :=
  [UInt8.ofNat (i.encode.toNat / 256), UInt8.ofNat (i.encode.toNat % 256)]

/-- The bytes of a program. -/
def assemble (program : List Instruction) : List UInt8 :=
  program.flatMap bytes

@[simp] theorem length_assemble (program : List Instruction) :
    (assemble program).length = 2 * program.length := by
  induction program with
  | nil => rfl
  | cons i program ih =>
    have hlength : (assemble (i :: program)).length = (assemble program).length + 2 := rfl
    rw [hlength, ih, List.length_cons]
    omega

/-- Every instruction takes two bytes. -/
theorem getElem?_assemble {program : List Instruction} {i : Instruction} {k : Nat}
    (hi : program[k]? = some i) :
    (assemble program)[2 * k]? = some (UInt8.ofNat (i.encode.toNat / 256)) ∧
      (assemble program)[2 * k + 1]? = some (UInt8.ofNat (i.encode.toNat % 256)) := by
  induction program generalizing k with
  | nil => cases hi
  | cons first program ih =>
    cases k with
    | zero =>
      obtain rfl : first = i := Option.some.inj hi
      exact ⟨rfl, rfl⟩
    | succ k => exact ih hi

end Instruction

/-- A word is read back from its two halves. -/
theorem Memory.word_of_halves {m : Memory} {address : Nat} {w : UInt16}
    (hhigh : m.read address = UInt8.ofNat (w.toNat / 256))
    (hlow : m.read (address + 1) = UInt8.ofNat (w.toNat % 256)) : m.word address = w := by
  have hlt := w.toNat_lt
  apply UInt16.toNat_inj.1
  rw [word, hhigh, hlow, UInt8.toNat_ofNat', UInt8.toNat_ofNat', UInt16.toNat_ofNat']
  omega

namespace Machine

/-- Where an instruction of the program in memory is next, it is executed. -/
theorem executes_of_write {m : Machine} {memory : Memory} {program : List Instruction}
    {i : Instruction} {k : Nat} (hrunning : m.waiting = none) (hpc : m.pc.toNat = 0x200 + 2 * k)
    (hmemory : m.memory = memory.write Memory.programStart (Instruction.assemble program))
    (hfits : program.length ≤ 1792) (hi : program[k]? = some i) : m.Executes i := by
  obtain ⟨hk, -⟩ := List.getElem?_eq_some_iff.1 hi
  obtain ⟨hhigh, hlow⟩ := Instruction.getElem?_assemble hi
  -- A byte of the program is read back at its place behind `Memory.programStart`.
  have hread : ∀ n, n < 3584 →
      m.memory.read (0x200 + n) =
        (Instruction.assemble program).getD n (memory.read (0x200 + n)) := by
    intro n hn
    have hinside : Memory.programStart ≤ 0x200 + n ∧ 0x200 + n < 4096 :=
      ⟨Nat.le_add_right _ _, by omega⟩
    rw [hmemory, Memory.read_write, if_pos hinside]
    have hoffset : 0x200 + n - Memory.programStart = n := Nat.add_sub_cancel_left _ _
    rw [hoffset]
  have hword : m.nextWord = i.encode := by
    rw [nextWord, hpc]
    refine Memory.word_of_halves ?_ ?_
    · rw [hread _ (by omega), List.getD_eq_getElem?_getD, hhigh, Option.getD_some]
    · rw [Nat.add_assoc, hread _ (by omega), List.getD_eq_getElem?_getD, hlow, Option.getD_some]
  exact executes_of_nextWord hrunning (by omega) hword

/-- A new machine executes the instruction that was loaded into it. -/
theorem executes_load (config : Config) (entropy : Vector UInt32 8) (i : Instruction) :
    ((Machine.new config entropy).act (.load i.bytes)).Executes i := by
  have hassemble : i.bytes = Instruction.assemble [i] := rfl
  rw [act, perform, hassemble, load_of_le _ (by simp)]
  exact executes_of_write (k := 0) rfl rfl rfl (by simp) rfl

end Machine

end ChipEight
