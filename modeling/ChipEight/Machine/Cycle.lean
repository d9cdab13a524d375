import ChipEight.Machine.Execute

/-!
# Cycles

A cycle is one tick of the virtual clock. A machine that runs fetches, reads and executes one
instruction; a machine that is paused looks for the press of a key instead. Either way both timers
count down by one, unless the cycle fails.

* `Machine.cycle` is one cycle.
* `Machine.cycles n` is `n` cycles, or fewer if one of them fails.
-/

namespace ChipEight

/-- A timer after one tick: one less, and zero stays zero. -/
def countDown (timer : UInt8) : UInt8 :=
  if timer = 0 then 0 else timer - 1

theorem toNat_countDown (timer : UInt8) : (countDown timer).toNat = timer.toNat - 1 := by
  unfold countDown
  split
  · next h => simp [h]
  · next h =>
    have h : timer.toNat ≠ 0 := fun h' => h (UInt8.toNat_inj.1 h')
    have := timer.toNat_lt
    rw [UInt8.toNat_sub_of_le _ _ (UInt8.le_iff_toNat_le.2 (by simp; omega))]
    simp

namespace Machine

/-- Lets both timers count down by one. -/
def tickTimers (m : Machine) : Machine :=
  { m with delay := countDown m.delay, sound := countDown m.sound }

/-- Fetches the word at `pc` and moves `pc` behind it, unless the word reaches past the end of
memory. -/
def fetch? (m : Machine) : Option (UInt16 × Machine) :=
  if m.pc.toNat + 1 < Memory.size then
    some (m.memory.word m.pc.toNat, { m with fetchedAt := m.pc, pc := m.pc + 2 })
  else none

theorem fetch?_eq_none_iff {m : Machine} : m.fetch? = none ↔ 4096 ≤ m.pc.toNat + 1 := by
  unfold fetch?
  split
  · next h =>
    have hlt : m.pc.toNat + 1 < 4096 := h
    simp only [reduceCtorEq, false_iff]
    omega
  · next h =>
    have hge : ¬ m.pc.toNat + 1 < 4096 := h
    simp only [true_iff]
    omega

theorem fetch?_of_lt {m : Machine} (h : m.pc.toNat + 1 < 4096) :
    m.fetch? = some (m.memory.word m.pc.toNat, { m with fetchedAt := m.pc, pc := m.pc + 2 }) :=
  if_pos h

/-- What is logged about an instruction beside its trace. -/
def notices : Instruction → List LogLine
  | .waitKey x => [.waiting x]
  | _ => []

/-- One cycle of a machine that is not paused. -/
def step (m : Machine) : Report :=
  match m.fetch? with
  | none => ⟨m, some (.memoryOutOfBounds (m.pc.toNat + 1)), []⟩
  | some (word, fetched) =>
    match Instruction.decode? word with
    | none => ⟨fetched, some (.unknownOpcode word fetched.fetchedAt), []⟩
    | some instruction =>
      let trace := .executing fetched.fetchedAt word instruction
      match fetched.execute instruction with
      | .error fault => ⟨fetched, some fault, [trace]⟩
      | .ok executed => ⟨executed.tickTimers, none, trace :: notices instruction⟩

/-- One cycle of a machine that waits for a key into register `x`. A latched press ends the
pause. -/
def awaitKey (m : Machine) (x : Fin 16) : Report :=
  match m.keypad.take with
  | (none, _) => ⟨m.tickTimers, none, []⟩
  | (some key, keypad) =>
    let resumed := { m with keypad, waiting := none }.setV x (UInt8.ofNat key)
    ⟨resumed.tickTimers, none, [.resumed key x]⟩

/-- One cycle. -/
def cycle (m : Machine) : Report :=
  match m.waiting with
  | none => m.step
  | some x => m.awaitKey x

/-! ### Several cycles -/

/-- What a number of cycles leaves behind. -/
structure Stretch where
  /-- The machine after the last cycle. -/
  machine : Machine
  /-- The number of cycles that succeeded. -/
  ran : Nat
  /-- Why the last cycle failed, if it failed. -/
  fault : Option Fault
  /-- The lines logged, in order. -/
  log : Array LogLine
deriving DecidableEq, Repr

namespace Stretch

/-- No cycle yet. -/
def start (m : Machine) : Stretch := ⟨m, 0, none, #[]⟩

/-- One cycle more. -/
def extend (s : Stretch) : Stretch :=
  let report := s.machine.cycle
  { machine := report.machine
    ran := if report.fault.isNone then s.ran + 1 else s.ran
    fault := report.fault
    log := s.log ++ report.log.toArray }

/-- Up to `n` cycles more, none after one that fails. -/
def run : Nat → Stretch → Stretch
  | 0, s => s
  | n + 1, s =>
    let s := s.extend
    if s.fault.isSome then s else s.run n

end Stretch

/-- Up to `n` cycles, none after one that fails. -/
def cycles (m : Machine) (n : Nat) : Stretch :=
  (Stretch.start m).run n

namespace Stretch

/-- A stretch that follows another one. -/
def append (s t : Stretch) : Stretch :=
  { t with ran := s.ran + t.ran, log := s.log ++ t.log }

@[simp] theorem run_zero (s : Stretch) : s.run 0 = s := rfl

theorem run_succ (s : Stretch) (n : Nat) :
    s.run (n + 1) = if s.extend.fault.isSome then s.extend else s.extend.run n := rfl

theorem extend_append (s t : Stretch) : (s.append t).extend = s.append t.extend := by
  simp only [append, extend, mk.injEq, true_and]
  refine ⟨?_, Array.append_assoc⟩
  split <;> simp_all [Nat.add_assoc]

theorem run_append (s t : Stretch) (n : Nat) : (s.append t).run n = s.append (t.run n) := by
  induction n generalizing t with
  | zero => rfl
  | succ n ih =>
    have hfault : (s.append t.extend).fault = t.extend.fault := rfl
    rw [run_succ, run_succ, extend_append, hfault, ih]
    split <;> rfl

theorem append_start (s : Stretch) (h : s.fault = none) : s.append (start s.machine) = s := by
  obtain ⟨m, ran, fault, log⟩ := s
  cases h
  simp [append, start]

/-- What comes before a stretch does not matter for how it goes on. -/
theorem run_eq_append (s : Stretch) (h : s.fault = none) (n : Nat) :
    s.run n = s.append (s.machine.cycles n) := by
  rw [cycles, ← run_append, append_start s h]

end Stretch

@[simp] theorem cycles_zero (m : Machine) : m.cycles 0 = .start m := rfl

/-- After a cycle that fails there is none. -/
theorem cycles_succ_of_fault {m : Machine} {fault : Fault} (h : m.cycle.fault = some fault)
    (n : Nat) : m.cycles (n + 1) = (Stretch.start m).extend := by
  have hfault : (Stretch.start m).extend.fault = some fault := h
  rw [cycles, Stretch.run_succ, hfault]
  rfl

/-- After a cycle that succeeds the others follow from the machine that it leaves. -/
theorem cycles_succ_of_success {m : Machine} (h : m.cycle.fault = none) (n : Nat) :
    m.cycles (n + 1) = (Stretch.start m).extend.append (m.cycle.machine.cycles n) := by
  have hfault : (Stretch.start m).extend.fault = none := h
  rw [cycles, Stretch.run_succ, if_neg (by rw [hfault]; decide)]
  exact Stretch.run_eq_append _ hfault n

end Machine

end ChipEight
