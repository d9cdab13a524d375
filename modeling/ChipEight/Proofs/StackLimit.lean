import ChipEight.Proofs.Lockstep
import ChipEight.Proofs.Runs

/-!
# The limit on calls is invisible until it is exceeded

A machine with a limit on the depth of calls and the same machine without one go through every run
in lockstep, up to the first call that the limit forbids. `Machine.Exceeds` says when an action is
such a call. One action either has the same result on both machines (`perform_withLimit`) or fails
on the limited one with its stack as it was (`cycle_of_exceeds`);
`stackLimit_invisible_until_exceeded` follows by induction on the run.
-/

namespace ChipEight.Machine

/-- The machine with another limit on the depth of calls. -/
def withLimit (m : Machine) (limit : Option Nat) : Machine :=
  { m with config := { m.config with stackLimit := limit } }

/-- The report with another limit on the depth of calls of its machine: the same fault, the same
log and otherwise the same state. -/
def Report.withLimit (r : Report) (limit : Option Nat) : Report :=
  { r with machine := r.machine.withLimit limit }

/-- The action is a cycle that executes a call where `limit` calls or more are open already. -/
def Exceeds (m : Machine) (limit : Nat) (action : Action) : Prop :=
  action = .cycle ∧ ∃ target, m.Executes (.call target) ∧ limit ≤ m.depth

variable {m : Machine} {limit : Nat} {action : Action}

/-! ### What depends on the limit -/

theorem holds_withLimit (m : Machine) (limit : Option Nat) (c : Condition) :
    (m.withLimit limit).Holds c ↔ m.Holds c := by
  cases c <;> exact Iff.rfl

/-- The effect of an instruction does not depend on the limit. -/
theorem effect_withLimit (m : Machine) (limit : Option Nat) (i : Instruction) :
    (m.withLimit limit).effect i = (m.effect i).withLimit limit := by
  cases i with
  | skipIf condition =>
    simp only [effect, holds_withLimit]
    rfl
  | _ => rfl

/-- Without a limit no call is refused. -/
theorem refusal_call_of_none (h : m.config.stackLimit = none) (target : Fin 4096) :
    m.refusal (.call target) = none := by
  rw [refusal, h]

/-- With a limit a call is refused if the open calls have reached it. -/
theorem refusal_call_withLimit (m : Machine) (limit : Nat) (target : Fin 4096) :
    (m.withLimit (some limit)).refusal (.call target) =
      if limit ≤ m.depth then some (.stackOverflow m.fetchedAt limit) else none := rfl

/-- Only calls are refused on account of a limit. -/
theorem refusal_withLimit {i : Instruction} (h : ∀ target, i ≠ .call target) (m : Machine)
    (limit : Option Nat) : (m.withLimit limit).refusal i = m.refusal i := by
  cases i with
  | call target => exact absurd rfl (h target)
  | _ => rfl

theorem awaitKey_withLimit (m : Machine) (limit : Option Nat) (x : Fin 16) :
    (m.withLimit limit).awaitKey x = (m.awaitKey x).withLimit limit := by
  have htake : (m.withLimit limit).keypad.take = m.keypad.take := rfl
  unfold awaitKey
  rw [htake]
  split <;> rfl

/-! ### One action -/

/-- A cycle that does not execute a forbidden call goes on in the same way with and without the
limit. -/
theorem lockstep_withLimit (hfree : m.config.stackLimit = none) (h : ¬ m.Exceeds limit .cycle) :
    Lockstep (fun m m' => m' = m.withLimit (some limit)) m (m.withLimit (some limit)) where
  waiting := rfl
  pc := rfl
  word _ _ := rfl
  start := rfl
  fetched := rfl
  refusal i hexec := by
    by_cases hcall : ∃ target, i = .call target
    · -- the fetch opens no call, so the depth is still below the limit
      obtain ⟨target, rfl⟩ := hcall
      have hdepth : ¬ limit ≤ m.depth := fun hle => h ⟨rfl, target, hexec, hle⟩
      have hallowed : (m.fetched.withLimit (some limit)).refusal (.call target) = none :=
        (refusal_call_withLimit m.fetched limit target).trans (if_neg hdepth)
      have hunlimited : m.fetched.refusal (.call target) = none :=
        refusal_call_of_none (m := m.fetched) hfree target
      exact hallowed.trans hunlimited.symm
    · exact refusal_withLimit (fun target hi => hcall ⟨target, hi⟩) m.fetched (some limit)
  effect i _ _ := congrArg tickTimers (effect_withLimit m.fetched (some limit) i)
  awaitKey x _ := by
    rw [awaitKey_withLimit]
    exact ⟨rfl, rfl, rfl⟩

/-- Unless it is a forbidden call, an action has the same result with and without the limit. -/
theorem perform_withLimit (hfree : m.config.stackLimit = none) (h : ¬ m.Exceeds limit action) :
    (m.withLimit (some limit)).perform action = (m.perform action).withLimit (some limit) := by
  cases action with
  | load program =>
    show (m.withLimit (some limit)).load program = (m.load program).withLimit (some limit)
    unfold load
    split <;> rfl
  | cycle => exact (lockstep_withLimit hfree h).cycle.eq
  | _ => rfl

/-- A forbidden call succeeds without the limit; with it, it fails and leaves the stack alone. -/
theorem cycle_of_exceeds (hfree : m.config.stackLimit = none) (h : m.Exceeds limit action) :
    (m.perform action).fault = none ∧
      ((m.withLimit (some limit)).perform action).fault = some (.stackOverflow m.pc limit) ∧
      ((m.withLimit (some limit)).act action).stack = m.stack := by
  obtain ⟨rfl, target, hexec, hdepth⟩ := h
  have hcycle := cycle_of_executes hexec
  have hlimited := cycle_of_executes (m := m.withLimit (some limit)) (i := .call target)
    ⟨hexec.running, hexec.inside, hexec.reads⟩
  have hallowed : m.fetched.refusal (.call target) = none :=
    refusal_call_of_none (m := m.fetched) hfree target
  have hrefused : (m.withLimit (some limit)).fetched.refusal (.call target) =
      some (.stackOverflow m.pc limit) :=
    (refusal_call_withLimit m.fetched limit target).trans (if_pos hdepth)
  rw [hallowed] at hcycle
  rw [hrefused] at hlimited
  exact ⟨congrArg (·.fault) hcycle, congrArg (·.fault) hlimited,
    congrArg (·.machine.stack) hlimited⟩

/-! ### Runs -/

/-- As long as no call has exceeded the limit, the machines are in the same state. -/
theorem after_withLimit (hfree : m.config.stackLimit = none) {actions : List Action} {n : Nat}
    (h : ∀ k < n, ∀ action, actions[k]? = some action →
      ¬ (m.after (actions.take k)).Exceeds limit action) :
    (m.withLimit (some limit)).after (actions.take n) =
      (m.after (actions.take n)).withLimit (some limit) := by
  -- Both runs come to the action with the number `n` in the same state, and it is no call that the
  -- limit forbids.
  induction n with
  | zero => rfl
  | succ n ih =>
    rw [after_take_succ, after_take_succ, ih fun k hk => h k (Nat.lt_succ_of_lt hk)]
    cases hlast : actions[n]? with
    | none => rfl
    | some action =>
      have hfree' : (m.after (actions.take n)).config.stackLimit = none := by
        rw [config_after, hfree]
      have hreport := perform_withLimit hfree' (h n (Nat.lt_succ_self n) action hlast)
      exact congrArg (·.machine) hreport

/-- A limit on the depth of calls changes nothing until it is exceeded. Up to the first action that
is a call with as many calls open as the limit allows, every action has the same result on the
machine without and on the machine with the limit, and leaves them in the same state. That call
succeeds without the limit; with it, it fails with its address and the limit, and the stack stays.
A run without such a call is the same on both machines from beginning to end. -/
theorem stackLimit_invisible_until_exceeded (m : Machine) (limit : Nat) (actions : List Action) :
    let free := fun n => (m.withLimit none).after (actions.take n)
    let limited := fun n => (m.withLimit (some limit)).after (actions.take n)
    let Exceeded := fun k => ∃ action, actions[k]? = some action ∧ (free k).Exceeds limit action
    (∀ n, (∀ k < n, ¬ Exceeded k) →
      limited n = (free n).withLimit (some limit) ∧
        ∀ action, actions[n]? = some action →
          (¬ Exceeded n →
            (limited n).perform action = ((free n).perform action).withLimit (some limit)) ∧
          (Exceeded n →
            ((free n).perform action).fault = none ∧
              ((limited n).perform action).fault = some (.stackOverflow (free n).pc limit) ∧
              ((limited n).act action).stack = (limited n).stack)) ∧
      ((∀ k, ¬ Exceeded k) → ∀ n,
        limited n = (free n).withLimit (some limit) ∧
          ∀ action, actions[n]? = some action →
            (limited n).perform action = ((free n).perform action).withLimit (some limit)) := by
  intro free limited Exceeded
  have hfree : ∀ n, (free n).config.stackLimit = none := fun n =>
    congrArg (·.stackLimit) (config_after (m.withLimit none) (actions.take n))
  have hsame : ∀ n, (∀ k < n, ¬ Exceeded k) → limited n = (free n).withLimit (some limit) := by
    intro n h
    exact after_withLimit (m := m.withLimit none) rfl fun k hk action haction hexceeds =>
      h k hk ⟨action, haction, hexceeds⟩
  have hperform : ∀ n, (∀ k < n, ¬ Exceeded k) → ∀ action, actions[n]? = some action →
      ¬ Exceeded n →
        (limited n).perform action = ((free n).perform action).withLimit (some limit) := by
    intro n h action haction hnot
    rw [hsame n h]
    exact perform_withLimit (hfree n) fun hexceeds => hnot ⟨action, haction, hexceeds⟩
  refine ⟨fun n h => ⟨hsame n h, fun action haction => ⟨hperform n h action haction, ?_⟩⟩, ?_⟩
  · rintro ⟨action', haction', hexceeds⟩
    obtain rfl : action = action' := Option.some.inj (haction.symm.trans haction')
    rw [hsame n h]
    exact cycle_of_exceeds (hfree n) hexceeds
  · intro hnever n
    exact ⟨hsame n fun k _ => hnever k,
      fun action haction => hperform n (fun k _ => hnever k) action haction (hnever n)⟩

/-- A subroutine that calls itself, with a limit of one call: the first call succeeds on both
machines, and the second one exceeds the limit. -/
theorem stackLimit_invisible_until_exceeded_recursion :
    let m := Machine.new {} (Vector.replicate 8 0)
    let actions : List Action :=
      [.load (Instruction.assemble [.call 0x200]), .cycle, .key (.press 3), .cycle]
    let free := fun n => (m.withLimit none).after (actions.take n)
    let limited := fun n => (m.withLimit (some 1)).after (actions.take n)
    let Exceeded := fun k => ∃ action, actions[k]? = some action ∧ (free k).Exceeds 1 action
    (∀ k < 3, ¬ Exceeded k) ∧ Exceeded 3 ∧ limited 3 = (free 3).withLimit (some 1) ∧
      ((free 3).perform .cycle).fault = none ∧
      ((limited 3).perform .cycle).fault = some (.stackOverflow 0x200 1) := by
  intro m actions free limited Exceeded
  -- the run without the limit is evaluated once
  obtain ⟨hbelow, hreached, hrunning, hreads, hpc⟩ :
      (∀ k < 3, actions[k]? = some .cycle → (free k).depth < 1) ∧ 1 ≤ (free 3).depth ∧
        (free 3).waiting = none ∧
        Instruction.decode? (free 3).nextWord = some (.call 0x200) ∧ (free 3).pc = 0x200 := by
    decide +kernel
  have hinside : (free 3).pc.toNat + 1 < 4096 := by
    rw [hpc]
    decide
  have hbefore : ∀ k < 3, ¬ Exceeded k := by
    rintro k hk ⟨action, haction, rfl, target, -, hdepth⟩
    exact absurd hdepth (Nat.not_le.2 (hbelow k hk haction))
  have hexceeded : Exceeded 3 := ⟨.cycle, rfl, rfl, 0x200, ⟨hrunning, hinside, hreads⟩, hreached⟩
  obtain ⟨huntil, -⟩ := stackLimit_invisible_until_exceeded m 1 actions
  obtain ⟨hsame, hnext⟩ := huntil 3 hbefore
  obtain ⟨hsuccess, hfault, -⟩ := (hnext .cycle rfl).2 hexceeded
  rw [hpc] at hfault
  exact ⟨hbefore, hexceeded, hsame, hsuccess, hfault⟩

end ChipEight.Machine
