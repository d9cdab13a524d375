import ChipEight.Proofs.Chronicle

/-!
# The timers as a summary of their history

Each timer is set from a register and counts down by one in every cycle that succeeds, the one that
sets it included. `Timer.LastSet` finds the last setting in the chronicle of a run and how many
cycles have passed from it on; that is all that the timer depends on
(`timers_follow_last_setting`). The two timers follow the same law, so it is stated for a `Timer`.
-/

namespace ChipEight

/-- The timers of the machine. -/
inductive Timer where
  /-- The delay timer, which programs can read. -/
  | delay
  /-- The sound timer. -/
  | sound
deriving DecidableEq, Repr

namespace Timer

/-- What the timer stands at. -/
def value : Timer → Machine → UInt8
  | delay, m => m.delay
  | sound, m => m.sound

/-- The instruction that sets the timer from register `x`. -/
def setting : Timer → Fin 16 → Instruction
  | delay, x => .setDelay x
  | sound, x => .setSound x

end Timer

/-- The next cycle executes an instruction that sets the timer. -/
def Machine.Sets (m : Machine) (timer : Timer) : Prop :=
  ∃ x, m.Executes (timer.setting x)

instance (m : Machine) (timer : Timer) : Decidable (m.Sets timer) :=
  decidable_of_iff (∃ x, m.instruction? = some (timer.setting x))
    (exists_congr fun _ => Machine.instruction?_eq_some_iff)

namespace Timer

open Machine

variable {timer : Timer} {m s : Machine} {actions : List Action} {past : List Machine}

/-- In a chronicle, the cycle from `s` puts register `x` into the timer and none after it sets the
timer again; from it on, itself included, there are `count` cycles. -/
structure LastSet (timer : Timer) (past : List Machine) (s : Machine) (x : Fin 16) (count : Nat) :
    Prop where
  executes : s.Executes (timer.setting x)
  split : ∃ earlier later, past = earlier ++ s :: later ∧ (∀ t ∈ later, ¬ t.Sets timer) ∧
    count = later.length + 1

/-- A chronicle sets the timer for a last time unless it does not set it at all. -/
theorem unset_or_lastSet (timer : Timer) (past : List Machine) :
    (∀ s ∈ past, ¬ s.Sets timer) ∨ ∃ s x count, timer.LastSet past s x count := by
  -- From the end: the latest cycle is the last setting, or it leaves the last one where it was.
  induction past using List.reverseRecOn with
  | nil => exact .inl fun s hs => nomatch hs
  | append_singleton past latest ih =>
    by_cases hsets : latest.Sets timer
    · obtain ⟨x, hexec⟩ := hsets
      exact .inr ⟨latest, x, 1, hexec, past, [], rfl, (fun t ht => nomatch ht), rfl⟩
    · rcases ih with hunset | ⟨s, x, count, hexec, earlier, later, rfl, hlater, rfl⟩
      · left
        intro s hs
        rcases List.mem_append.1 hs with hold | hnew
        · exact hunset s hold
        · rwa [List.mem_singleton.1 hnew]
      · right
        refine ⟨s, x, later.length + 2, hexec, earlier, later ++ [latest], ?_, ?_, ?_⟩
        · rw [List.append_assoc, List.cons_append]
        · intro t ht
          rcases List.mem_append.1 ht with hold | hnew
          · exact hlater t hold
          · rwa [List.mem_singleton.1 hnew]
        · rw [List.length_append, List.length_singleton]

/-! ### What a cycle does to a timer -/

theorem value_tickTimers (timer : Timer) (m : Machine) :
    timer.value m.tickTimers = countDown (timer.value m) := by
  cases timer <;> rfl

/-- The cycle that sets a timer lets it count down for the first time. -/
theorem value_cycle_of_executes {x : Fin 16} (hexec : s.Executes (timer.setting x)) :
    timer.value s.cycle.machine = countDown (s.v x) := by
  have hrefusal : s.fetched.refusal (timer.setting x) = none := by cases timer <;> rfl
  rw [(cycle_of_not_refused hexec hrefusal).2, value_tickTimers]
  cases timer <;> rfl

/-- An instruction that does not set the timer leaves it alone. -/
theorem value_effect {i : Instruction} (h : ∀ x, i ≠ timer.setting x) (m : Machine) :
    timer.value (m.effect i) = timer.value m := by
  cases timer with
  | delay =>
    rw [value, value, delay_effect]
    unfold delayAfter
    split
    · next x => exact absurd rfl (h x)
    · rfl
  | sound =>
    rw [value, value, sound_effect]
    unfold soundAfter
    split
    · next x => exact absurd rfl (h x)
    · rfl

/-- A cycle that succeeds without setting a timer lets it count down, whether it executes something
or waits for a key. -/
theorem value_cycle_of_unset (hsuccess : s.cycle.fault = none) (hunset : ¬ s.Sets timer) :
    timer.value s.cycle.machine = countDown (timer.value s) := by
  cases successCase hsuccess with
  | paused x _ hcycle =>
    rw [hcycle, awaitKey]
    cases timer <;> split <;> rfl
  | executed i hsome _ hmachine =>
    have hother : ∀ x, i ≠ timer.setting x := by
      rintro x rfl
      exact hunset ⟨x, instruction?_eq_some_iff.1 hsome⟩
    rw [hmachine, value_tickTimers, value_effect hother]
    cases timer <;> rfl

theorem value_act_of_idle {action : Action} (h : m.Idle action) :
    timer.value (m.act action) = timer.value m := by
  cases timer with
  | delay => exact h.delay
  | sound => exact h.sound

/-! ### What a run does to a timer -/

/-- A run that does not set a timer takes one from it for each cycle that succeeds, as long as there
is something to take. -/
theorem value_after_of_unset (hunset : ∀ s ∈ m.successes actions, ¬ s.Sets timer) :
    (timer.value (m.after actions)).toNat =
      (timer.value m).toNat - (m.successes actions).length := by
  -- The condition speaks of the chronicle so far, so the induction has to carry it along.
  revert hunset
  refine successes_induction (P := fun s past => (∀ t ∈ past, ¬ t.Sets timer) →
    (timer.value s).toNat = (timer.value m).toNat - past.length) (fun _ => rfl) ?_ ?_
  · intro s past ih hsuccess hunset
    have hbefore := ih fun t ht => hunset t (List.mem_append_left _ ht)
    have hnow : ¬ s.Sets timer := hunset s (by simp)
    rw [value_cycle_of_unset hsuccess hnow, toNat_countDown, hbefore, List.length_append,
      List.length_singleton, Nat.sub_sub]
  · intro s past action _ ih hidle hunset
    rw [value_act_of_idle (idle_of_not_succeeds hidle)]
    exact ih hunset

/-- After its last setting a timer stands at what it was set to, less the cycles that have passed
from the setting on. -/
theorem value_after_of_lastSet {x : Fin 16} {count : Nat}
    (h : timer.LastSet (m.successes actions) s x count) :
    (timer.value (m.after actions)).toNat = (s.v x).toNat - count := by
  obtain ⟨hexec, earlier, later, hsplit, hlater, rfl⟩ := h
  -- the run is cut at the setting: what comes after it is a run that does not set the timer
  obtain ⟨before, rest, rfl, hreach, -, -, rfl⟩ := exists_run_to hsplit
  have hafter : m.after (before ++ .cycle :: rest) = s.cycle.machine.after rest := by
    rw [after_append, hreach, after_cons]
    rfl
  rw [hafter, value_after_of_unset hlater, value_cycle_of_executes hexec, toNat_countDown,
    Nat.sub_sub, Nat.add_comm]

end Timer

namespace Machine

/-- Reading the delay timer never fails and gives what it stood at before the cycle. -/
theorem cycle_of_executes_readDelay {m : Machine} {z : Fin 16} (h : m.Executes (.readDelay z)) :
    m.cycle.fault = none ∧ m.cycle.machine.v z = m.delay := by
  obtain ⟨hsuccess, hmachine⟩ := cycle_of_not_refused h rfl
  refine ⟨hsuccess, ?_⟩
  rw [hmachine]
  exact Registers.get_set_self m.registers z m.delay

/-- After every run each timer stands at the value of its last setting less the number of cycles
that succeeded from that setting on, or at its first value less all that succeeded if it was not
set; and what is read from the delay timer next is that number. -/
theorem timers_follow_last_setting (m : Machine) (actions : List Action) :
    let past := m.successes actions
    let now := m.after actions
    (∀ timer : Timer,
      ((∀ s ∈ past, ¬ s.Sets timer) ∨ ∃ s x count, timer.LastSet past s x count) ∧
        (∀ s x count, timer.LastSet past s x count →
          (timer.value now).toNat = (s.v x).toNat - count) ∧
        ((∀ s ∈ past, ¬ s.Sets timer) →
          (timer.value now).toNat = (timer.value m).toNat - past.length)) ∧
      ∀ z, now.Executes (.readDelay z) →
        now.cycle.fault = none ∧
          ∀ s x count, Timer.delay.LastSet past s x count →
            (now.cycle.machine.v z).toNat = (s.v x).toNat - count := by
  intro past now
  refine ⟨fun timer => ⟨timer.unset_or_lastSet past, ?_, Timer.value_after_of_unset⟩, ?_⟩
  · intro s x count hlast
    exact Timer.value_after_of_lastSet hlast
  · intro z hexec
    obtain ⟨hsuccess, hread⟩ := cycle_of_executes_readDelay hexec
    refine ⟨hsuccess, fun s x count hlast => ?_⟩
    rw [hread]
    exact Timer.value_after_of_lastSet hlast

/-- The delay timer is set to 9. Until it is read, the sound timer is set, a wait for a key takes
three cycles, and a return fails: with the setting itself that makes five cycles. -/
theorem timers_follow_last_setting_wait :
    let program : List Instruction :=
      [.setByte 0 9, .setDelay 0, .setSound 0, .waitKey 1, .ret, .readDelay 2]
    let m := Machine.new {} (Vector.replicate 8 0)
    let before : List Action := [.load (Instruction.assemble program), .cycle]
    let after : List Action := [.cycle, .cycle, .cycle, .key (.press 3), .cycle, .cycle]
    let s := m.after before
    let now := m.after (before ++ .cycle :: after)
    Timer.delay.LastSet (m.successes (before ++ .cycle :: after)) s 0 5 ∧
      now.Executes (.readDelay 2) ∧ s.v 0 = 9 ∧ (now.cycle.machine.v 2).toNat = 4 := by
  intro program m before after s now
  -- the run is evaluated once for all that has to be known of it
  obtain ⟨hset, hsuccess, hlater, hlength, hread, hvalue⟩ :
      s.instruction? = some (.setDelay 0) ∧ s.cycle.fault = none ∧
        (∀ t ∈ s.cycle.machine.successes after, ¬ t.Sets .delay) ∧
        (s.cycle.machine.successes after).length = 4 ∧
        now.instruction? = some (.readDelay 2) ∧ s.v 0 = 9 := by
    decide +kernel
  have hsplit : m.successes (before ++ .cycle :: after) =
      m.successes before ++ s :: s.cycle.machine.successes after := by
    rw [successes_append]
    exact congrArg _ (successes_cons_of_succeeds ⟨rfl, hsuccess⟩ after)
  have hlast : Timer.delay.LastSet (m.successes (before ++ .cycle :: after)) s 0 5 :=
    ⟨instruction?_eq_some_iff.1 hset, m.successes before, _, hsplit, hlater, by rw [hlength]⟩
  have hexec : now.Executes (.readDelay 2) := instruction?_eq_some_iff.1 hread
  obtain ⟨-, hreads⟩ := timers_follow_last_setting m (before ++ .cycle :: after)
  have hstands := (hreads 2 hexec).2 s 0 5 hlast
  rw [hvalue] at hstands
  exact ⟨hlast, hexec, hvalue, hstands⟩

end Machine

end ChipEight
