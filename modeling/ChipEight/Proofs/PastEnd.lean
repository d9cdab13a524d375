import ChipEight.Proofs.Checked.Agreement
import ChipEight.Proofs.Chronicle
import ChipEight.Proofs.KeypadSummary

/-!
# Past the end of memory

A word is fetched only if both of its bytes lie in memory. A machine whose `pc` has come too near to
the end for that is stranded: the fetch is the first thing that a cycle does, and it fails before it
has moved anything. Nothing else that happens to a machine moves `pc` either, so the machine never
gets away (`Machine.stranded_for_good`). Programs that are loaded still go into memory, and the
keypad still follows its keys, as if there were no cycles at all.
-/

namespace ChipEight

namespace Action

/-- The program that the action loads. -/
def program? : Action → Option (List UInt8)
  | .load program => some program
  | _ => none

/-- What the action does to the keypad. -/
def keypadUse? : Action → Option KeypadUse
  | .key event => some (.event event)
  | .takeKey => some .take
  | _ => none

end Action

/-- The memory after programs were loaded into it in order. Those that do not fit are refused. -/
def Memory.loadAll (memory : Memory) (programs : List (List UInt8)) : Memory :=
  programs.foldl (fun memory program =>
    if programCapacity < program.length then memory else memory.write programStart program) memory

namespace Machine

/-- The machine is about to fetch a word that reaches past the end of memory. -/
structure Stranded (m : Machine) : Prop where
  /-- The machine is not paused. -/
  running : m.waiting = none
  pastEnd : 4095 ≤ m.pc.toNat

/-- The machine after a run, if nothing but its loads and its uses of the keypad had an effect. -/
def withLoadsAndKeys (m : Machine) (actions : List Action) : Machine :=
  { m with
    memory := m.memory.loadAll (actions.filterMap Action.program?)
    keypad := m.keypad.useAll (actions.filterMap Action.keypadUse?) }

variable {m : Machine}

/-- A cycle of a stranded machine fails and leaves the machine as it was. -/
theorem Stranded.cycle (h : m.Stranded) :
    m.cycle = ⟨m, some (.memoryOutOfBounds (m.pc.toNat + 1)), []⟩ :=
  cycle_of_unfetched h.running (Nat.succ_le_succ h.pastEnd)

/-- Neither a load nor the keypad helps: `pc` stays, and the machine does not wait for a key. -/
theorem Stranded.withLoadsAndKeys (h : m.Stranded) (actions : List Action) :
    (m.withLoadsAndKeys actions).Stranded :=
  ⟨h.running, h.pastEnd⟩

/-- Of what happens to a stranded machine, only a load and a use of the keypad have an effect. -/
theorem Stranded.act (h : m.Stranded) {action : Action} (haction : ¬ action.UsesScreen) :
    m.act action = m.withLoadsAndKeys [action] := by
  cases action with
  | load program => exact act_load m program
  | cycle => exact congrArg Report.machine h.cycle
  | key event => rfl
  | takeKey => rfl
  | toggle _ | clear | present => exact absurd trivial haction

theorem Stranded.after (h : m.Stranded) {actions : List Action}
    (hactions : ∀ action ∈ actions, ¬ action.UsesScreen) :
    m.after actions = m.withLoadsAndKeys actions := by
  induction actions generalizing m with
  | nil => rfl
  | cons action actions ih =>
    obtain ⟨haction, hactions⟩ := List.forall_mem_cons.1 hactions
    have hthen : (m.withLoadsAndKeys [action]).after actions =
        (m.withLoadsAndKeys [action]).withLoadsAndKeys actions :=
      ih (h.withLoadsAndKeys [action]) hactions
    rw [after_cons, h.act haction, hthen]
    -- what the first action does to memory and keypad comes before what the others do
    cases action <;> rfl

/-- A machine that has run off the end of memory never comes back. Whatever is loaded and whatever
happens to the keypad, each cycle fails at the fetch with the same address and changes nothing; the
memory is the one that the loads leave, and the keypad the one that its uses leave. -/
theorem stranded_for_good (m : Machine) (hrunning : m.waiting = none) (hpc : 4095 ≤ m.pc.toNat)
    (actions : List Action) (hactions : ∀ action ∈ actions, ¬ action.UsesScreen) :
    (∀ before rest, actions = before ++ .cycle :: rest →
      let s := m.after before
      let fault := Fault.memoryOutOfBounds (m.pc.toNat + 1)
      s.cycle = ⟨s, some fault, []⟩ ∧ Checked.cycle.run s = .error (.fault fault) s) ∧
    m.after actions =
      { m with
        memory := m.memory.loadAll (actions.filterMap Action.program?)
        keypad := m.keypad.useAll (actions.filterMap Action.keypadUse?) } := by
  have hstranded : m.Stranded := ⟨hrunning, hpc⟩
  refine ⟨?_, hstranded.after hactions⟩
  rintro before rest rfl s fault
  have hbefore : s = m.withLoadsAndKeys before :=
    hstranded.after fun action haction => hactions action (List.mem_append_left _ haction)
  have hcycle : s.cycle = ⟨s, some fault, []⟩ := by
    rw [hbefore]
    exact (hstranded.withLoadsAndKeys before).cycle
  refine ⟨hcycle, ?_⟩
  rw [Checked.run_cycle, hcycle]
  rfl

/-- A program jumps to the last byte of memory. A jump back that is loaded afterwards is not
executed, and the key that is pressed is there to be taken, but nobody takes it. -/
theorem stranded_for_good_jump :
    let jump : Instruction := .jump 0xFFF
    let m := ((Machine.new {} (Vector.replicate 8 0)).act (.load jump.bytes)).cycle.machine
    let actions : List Action :=
      [.cycle, .load (Instruction.jump 0x200).bytes, .key (.press 3), .cycle]
    m.waiting = none ∧ 4095 ≤ m.pc.toNat ∧ (∀ action ∈ actions, ¬ action.UsesScreen) ∧
      (m.after (actions.take 3)).cycle.fault = some (.memoryOutOfBounds 0x1000) ∧
      (m.after actions).pc = 0xFFF ∧ (m.after actions).memory.word 0x200 = 0x1200 ∧
      (m.after actions).keypad.latch = some 3 := by
  intro jump m actions
  -- the jump is evaluated once for all that has to be known of the machine behind it
  obtain ⟨hrunning, hpc, hword, hlatch⟩ :
      m.waiting = none ∧ m.pc = 0xFFF ∧
        (m.memory.loadAll (actions.filterMap Action.program?)).word 0x200 = 0x1200 ∧
        (m.keypad.useAll (actions.filterMap Action.keypadUse?)).latch = some 3 := by
    decide +kernel
  have hend : 4095 ≤ m.pc.toNat := by
    rw [hpc]
    decide
  have hactions : ∀ action ∈ actions, ¬ action.UsesScreen := by simp [actions, Action.UsesScreen]
  obtain ⟨hcycles, hafter⟩ := stranded_for_good m hrunning hend actions hactions
  obtain ⟨hlast, -⟩ := hcycles (actions.take 3) [] rfl
  refine ⟨hrunning, hend, hactions, ?_, ?_⟩
  · rw [hlast, hpc]
    rfl
  · rw [hafter]
    exact ⟨hpc, hword, hlatch⟩

end Machine

end ChipEight
