import ChipEight.Proofs.Footprint
import Mathlib.Data.List.Induction

/-!
# The chronicle of a run

What a run did to the screen, to the timers and to the random bytes can be told from its cycles that
succeeded, each taken with the machine from which it started. `Machine.successes` lists these
machines in order, and `Machine.instruction?` says what such a machine executed.

* `successCase`: a cycle that succeeds either waits for a key or executes an instruction.
* `idle_of_not_succeeds`: any other action leaves the timers, the random bytes and, unless it uses
  the screen directly, the screen as they were.
* `successes_induction`: what holds at the start and is kept by both kinds of actions holds at the
  end of a run, of the machine together with its chronicle.
* `exists_run_to`: a cycle of the chronicle splits the run in what came before it and after it.
-/

namespace ChipEight

/-- The action uses the screen directly, past the program. -/
def Action.UsesScreen : Action → Prop
  | .toggle _ | .clear | .present => True
  | .load _ | .cycle | .key _ | .takeKey => False

namespace Machine

variable {m s : Machine} {action : Action} {actions : List Action}

/-! ### What a cycle executes -/

/-- The instruction that the next cycle executes. There is none while the machine is paused, where
nothing can be fetched, and for a word that is no instruction. -/
def instruction? (m : Machine) : Option Instruction :=
  if m.waiting = none ∧ m.pc.toNat + 1 < 4096 then Instruction.decode? m.nextWord else none

theorem instruction?_eq_some_iff {i : Instruction} : m.instruction? = some i ↔ m.Executes i := by
  unfold instruction?
  constructor
  · intro h
    split at h
    · next hready => exact ⟨hready.1, hready.2, h⟩
    · cases h
  · intro h
    rw [if_pos ⟨h.running, h.inside⟩]
    exact h.reads

theorem instruction?_of_paused {x : Fin 16} (hwaiting : m.waiting = some x) :
    m.instruction? = none := by
  have hpaused : ¬ (m.waiting = none ∧ m.pc.toNat + 1 < 4096) := by
    rintro ⟨hrunning, -⟩
    rw [hwaiting] at hrunning
    cases hrunning
  exact if_neg hpaused

/-! ### Cycles that succeed and other actions -/

/-- The ways in which a cycle succeeds. -/
inductive SuccessCase (m : Machine) : Prop where
  /-- The machine waits for a key. -/
  | paused (x : Fin 16) (hnone : m.instruction? = none) (hcycle : m.cycle = m.awaitKey x)
  /-- An instruction takes effect. -/
  | executed (i : Instruction) (hsome : m.instruction? = some i)
      (hrefusal : m.fetched.refusal i = none)
      (hmachine : m.cycle.machine = (m.fetched.effect i).tickTimers)

theorem successCase (h : m.cycle.fault = none) : SuccessCase m := by
  cases m.cycleCase with
  | paused x hwaiting hcycle => exact .paused x (instruction?_of_paused hwaiting) hcycle
  | unfetched _ _ hcycle | unreadable _ _ _ hcycle | refused _ _ _ _ hcycle =>
    rw [hcycle] at h
    cases h
  | executed i hexec hrefusal hcycle =>
    exact .executed i (instruction?_eq_some_iff.2 hexec) hrefusal (congrArg (·.machine) hcycle)

/-- The cycle of an instruction that is not refused. -/
theorem cycle_of_not_refused {i : Instruction} (hexec : m.Executes i)
    (hrefusal : m.fetched.refusal i = none) :
    m.cycle.fault = none ∧ m.cycle.machine = (m.fetched.effect i).tickTimers := by
  have hcycle := cycle_of_executes hexec
  rw [hrefusal] at hcycle
  rw [hcycle]
  exact ⟨rfl, rfl⟩

/-- A cycle that fails has at most fetched a word. -/
theorem cycle_of_fault (h : m.cycle.fault ≠ none) :
    m.cycle.machine = m ∨ m.cycle.machine = m.fetched := by
  cases m.cycleCase with
  | paused x hwaiting hcycle =>
    rw [hcycle] at h
    exact absurd (pauseFootprint_awaitKey m x).1 h
  | unfetched _ _ hcycle => exact .inl (congrArg (·.machine) hcycle)
  | unreadable _ _ _ hcycle | refused _ _ _ _ hcycle => exact .inr (congrArg (·.machine) hcycle)
  | executed i hexec hrefusal hcycle =>
    rw [hcycle] at h
    exact absurd rfl h

/-- The action is a cycle, and it succeeds. -/
def Succeeds (m : Machine) (action : Action) : Prop :=
  action = .cycle ∧ m.cycle.fault = none

instance (m : Machine) (action : Action) : Decidable (m.Succeeds action) :=
  inferInstanceAs (Decidable (_ ∧ _))

/-- The action leaves alone what only cycles that succeed can change. -/
structure Idle (m : Machine) (action : Action) : Prop where
  delay : (m.act action).delay = m.delay
  sound : (m.act action).sound = m.sound
  random : (m.act action).random = m.random
  screen : ¬ action.UsesScreen → (m.act action).screen = m.screen

theorem idle_of_not_succeeds (h : ¬ m.Succeeds action) : m.Idle action := by
  cases action with
  | load program => constructor <;> simp only [act_load, implies_true]
  | cycle =>
    have hfault : m.cycle.fault ≠ none := fun hnone => h ⟨rfl, hnone⟩
    have hact : m.act .cycle = m ∨ m.act .cycle = m.fetched := cycle_of_fault hfault
    refine ⟨?_, ?_, ?_, fun _ => ?_⟩ <;> rcases hact with hact | hact <;> rw [hact] <;> rfl
  | key _ | takeKey => exact ⟨rfl, rfl, rfl, fun _ => rfl⟩
  | toggle _ | clear | present => exact ⟨rfl, rfl, rfl, fun hunused => absurd trivial hunused⟩

/-! ### The chronicle -/

/-- The machines from which the cycles of a run that succeed start, in order. -/
def successes (m : Machine) : List Action → List Machine
  | [] => []
  | action :: actions =>
    if m.Succeeds action then m :: (m.act action).successes actions
    else (m.act action).successes actions

@[simp] theorem successes_nil (m : Machine) : m.successes [] = [] := rfl

theorem successes_cons_of_succeeds (h : m.Succeeds action) (actions : List Action) :
    m.successes (action :: actions) = m :: (m.act action).successes actions :=
  if_pos h

theorem successes_cons_of_not (h : ¬ m.Succeeds action) (actions : List Action) :
    m.successes (action :: actions) = (m.act action).successes actions :=
  if_neg h

theorem successes_append (m : Machine) (first second : List Action) :
    m.successes (first ++ second) = m.successes first ++ (m.after first).successes second := by
  induction first generalizing m with
  | nil => rfl
  | cons action first ih =>
    rw [List.cons_append, after_cons]
    by_cases h : m.Succeeds action
    · rw [successes_cons_of_succeeds h, successes_cons_of_succeeds h, ih, List.cons_append]
    · rw [successes_cons_of_not h, successes_cons_of_not h, ih]

/-- What holds of a machine before its first action, and is kept by cycles that succeed and by all
other actions, holds of the machine and its chronicle after the run. -/
theorem successes_induction {P : Machine → List Machine → Prop} (start : P m [])
    (success : ∀ s past, P s past → s.cycle.fault = none → P s.cycle.machine (past ++ [s]))
    (idle : ∀ s past action, action ∈ actions → P s past → ¬ s.Succeeds action →
      P (s.act action) past) :
    P (m.after actions) (m.successes actions) := by
  -- The induction takes the latest action off, since the chronicle grows at its end.
  induction actions using List.reverseRecOn with
  | nil => exact start
  | append_singleton actions action ih =>
    have hbefore : P (m.after actions) (m.successes actions) :=
      ih fun s past a ha => idle s past a (List.mem_append_left _ ha)
    rw [after_append, after_cons, after_nil, successes_append]
    by_cases h : (m.after actions).Succeeds action
    · obtain ⟨rfl, hsuccess⟩ := h
      rw [successes_cons_of_succeeds ⟨rfl, hsuccess⟩, successes_nil]
      exact success _ _ hbefore hsuccess
    · rw [successes_cons_of_not h, successes_nil, List.append_nil]
      exact idle _ _ action (by simp) hbefore h

/-- Where a chronicle is split, the run is split as well: it reached the machine `s` with what is
`earlier` in the chronicle behind it, and went on from there with a cycle that succeeds. -/
theorem exists_run_to {earlier later : List Machine}
    (h : m.successes actions = earlier ++ s :: later) :
    ∃ before after, actions = before ++ .cycle :: after ∧ m.after before = s ∧
      m.successes before = earlier ∧ s.cycle.fault = none ∧
      s.cycle.machine.successes after = later := by
  -- Along the run: an action that is not in the chronicle, or one that is in its `earlier` part,
  -- comes `before`, and the first one past that part is the cycle from `s`.
  induction actions generalizing m earlier with
  | nil => simp at h
  | cons action actions ih =>
    by_cases hsuccess : m.Succeeds action
    · obtain ⟨rfl, hfault⟩ := hsuccess
      rw [successes_cons_of_succeeds ⟨rfl, hfault⟩] at h
      cases earlier with
      | nil =>
        obtain ⟨rfl, hlater⟩ := List.cons_eq_cons.1 h
        exact ⟨[], actions, rfl, rfl, rfl, hfault, hlater⟩
      | cons first earlier =>
        obtain ⟨rfl, hrest⟩ := List.cons_eq_cons.1 h
        obtain ⟨before, after, rfl, hreach, hearlier, hs, hlater⟩ := ih hrest
        refine ⟨.cycle :: before, after, rfl, hreach, ?_, hs, hlater⟩
        rw [successes_cons_of_succeeds ⟨rfl, hfault⟩, hearlier]
    · rw [successes_cons_of_not hsuccess] at h
      obtain ⟨before, after, rfl, hreach, hearlier, hs, hlater⟩ := ih h
      refine ⟨action :: before, after, rfl, hreach, ?_, hs, hlater⟩
      rw [successes_cons_of_not hsuccess, hearlier]

end Machine

end ChipEight
