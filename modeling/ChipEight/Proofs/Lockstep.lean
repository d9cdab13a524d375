import ChipEight.Proofs.Runs
import Mathlib.Data.List.Induction

/-!
# Two machines in lockstep

When two machines are related in some way and agree on what decides how a cycle goes, their next
cycles end alike and leave them related. `Machine.Lockstep` lists what they have to agree on, and
`Machine.Lockstep.cycle` goes through the ways in which a cycle ends once for all such relations.

`Machine.alike_after` follows two related machines through the same run.
-/

namespace ChipEight.Machine

/-- The operations have failed alike and logged the same lines, and the machines they leave behind
are related. -/
structure Report.Alike (R : Machine → Machine → Prop) (r r' : Report) : Prop where
  machine : R r.machine r'.machine
  fault : r'.fault = r.fault
  log : r'.log = r.log

/-- Where one machine determines the other, one report determines the other. -/
theorem Report.Alike.eq {f : Machine → Machine} {r r' : Report}
    (h : r.Alike (fun m m' => m' = f m) r') : r' = { r with machine := f r.machine } := by
  obtain ⟨hmachine, hfault, hlog⟩ := h
  rw [← hmachine, ← hfault, ← hlog]

/-- The machines go through the next cycle in the same way, and keep to the relation however it
ends. -/
structure Lockstep (R : Machine → Machine → Prop) (m m' : Machine) : Prop where
  /-- Both wait for a key, or neither. -/
  waiting : m'.waiting = m.waiting
  pc : m'.pc = m.pc
  /-- What they fetch is the same. -/
  word : m.waiting = none → m.pc.toNat + 1 < 4096 → m'.nextWord = m.nextWord
  /-- A cycle that fails at the fetch keeps them related. -/
  start : R m m'
  /-- A cycle that fails after the fetch keeps them related. -/
  fetched : R m.fetched m'.fetched
  /-- An instruction is refused to both or to neither, and with the same fault. -/
  refusal : ∀ i, m.Executes i → m'.fetched.refusal i = m.fetched.refusal i
  /-- An instruction that takes effect keeps them related. -/
  effect : ∀ i, m.Executes i → m.fetched.refusal i = none →
    R (m.fetched.effect i).tickTimers (m'.fetched.effect i).tickTimers
  /-- A cycle that waits for a key keeps them related. -/
  awaitKey : ∀ x, m.waiting = some x → (m.awaitKey x).Alike R (m'.awaitKey x)

variable {R : Machine → Machine → Prop} {m m' : Machine}

theorem Lockstep.executes (h : Lockstep R m m') {i : Instruction} (hexec : m.Executes i) :
    m'.Executes i where
  running := h.waiting.trans hexec.running
  inside := by
    rw [h.pc]
    exact hexec.inside
  reads := by
    rw [h.word hexec.running hexec.inside]
    exact hexec.reads

/-- Machines in lockstep end the next cycle alike. -/
theorem Lockstep.cycle (h : Lockstep R m m') : m.cycle.Alike R m'.cycle := by
  cases m.cycleCase with
  | paused x hwaiting hcycle =>
    rw [hcycle, cycle_of_paused (h.waiting.trans hwaiting)]
    exact h.awaitKey x hwaiting
  | unfetched hrunning hpc hcycle =>
    rw [← h.pc] at hpc
    rw [hcycle, cycle_of_unfetched (h.waiting.trans hrunning) hpc, h.pc]
    exact ⟨h.start, rfl, rfl⟩
  | unreadable hrunning hpc hword hcycle =>
    have hsame := h.word hrunning hpc
    rw [← h.pc] at hpc
    rw [← hsame] at hword
    rw [hcycle, cycle_of_unreadable (h.waiting.trans hrunning) hpc hword, hsame, h.pc]
    exact ⟨h.fetched, rfl, rfl⟩
  | refused i fault hexec hrefusal hcycle =>
    have hcycle' := cycle_of_executes (h.executes hexec)
    rw [h.refusal i hexec, hrefusal, h.word hexec.running hexec.inside, h.pc] at hcycle'
    rw [hcycle, hcycle']
    exact ⟨h.fetched, rfl, rfl⟩
  | executed i hexec hrefusal hcycle =>
    have hcycle' := cycle_of_executes (h.executes hexec)
    rw [h.refusal i hexec, hrefusal, h.word hexec.running hexec.inside, h.pc] at hcycle'
    rw [hcycle, hcycle']
    exact ⟨h.effect i hexec hrefusal, rfl, rfl⟩

/-! ### Runs of two machines -/

/-- Two machines go through the same run. A relation that holds at the start and is kept by each
action holds all along, and each action ends alike on both machines. What the relation demands may
depend on what has happened so far. -/
theorem alike_after {R : List Action → Machine → Machine → Prop} {actions : List Action}
    (start : R [] m m')
    (step : ∀ before action after, actions = before ++ action :: after →
      R before (m.after before) (m'.after before) →
        ((m.after before).perform action).Alike (R (before ++ [action]))
          ((m'.after before).perform action)) :
    (∀ before after, actions = before ++ after → R before (m.after before) (m'.after before)) ∧
      ∀ before action after, actions = before ++ action :: after →
        ((m.after before).perform action).Alike (R (before ++ [action]))
          ((m'.after before).perform action) := by
  have hrelated : ∀ before after, actions = before ++ after →
      R before (m.after before) (m'.after before) := by
    -- The step at the end of what has passed takes the relation behind all but that step.
    intro before
    induction before using List.reverseRecOn with
    | nil => exact fun _ _ => start
    | append_singleton before action ih =>
      intro after hsplit
      rw [List.append_assoc, List.singleton_append] at hsplit
      rw [after_append, after_append]
      exact (step before action after hsplit (ih _ hsplit)).machine
  refine ⟨hrelated, fun before action after hsplit => ?_⟩
  exact step before action after hsplit (hrelated before _ hsplit)

end ChipEight.Machine
