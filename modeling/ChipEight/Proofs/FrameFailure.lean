import ChipEight.Frontend.Scripted
import ChipEight.Proofs.Clock
import ChipEight.Proofs.Runs
import ChipEight.Proofs.SessionCalls

/-!
# Frames that fail

A frame may fail in one of its cycles, when the screen is to be shown, or when the events are to be
handled. The clock is charged before all of that, so wherever the frame stops, the ticks that it did
not come to are lost.

* `Machine.ticked n` is the machine after `n` cycles, whether or not they fail, and
  `Machine.SucceedsFor n` says that none of them fails. A stretch of cycles is compared with these.
* `Timestep.Charged` is what charging the clock for all ticks that are due amounts to.
* `Session.Goes` puts together the calls of a frame, how it ends and the session that it leaves.
  There is a lemma for each place at which it can end.
* `Session.frame_under_failure` says how a frame goes for every place of the failure.
-/

namespace ChipEight

namespace Machine

variable {m : Machine} {n k : Nat} {fault : Fault}

/-- The machine after `n` cycles, whether or not they fail. -/
def ticked (m : Machine) (n : Nat) : Machine :=
  m.after (List.replicate n .cycle)

/-- The first `n` cycles succeed. -/
def SucceedsFor (m : Machine) (n : Nat) : Prop :=
  ∀ k < n, (m.ticked k).cycle.fault = none

instance (m : Machine) (n : Nat) : Decidable (m.SucceedsFor n) :=
  inferInstanceAs (Decidable (∀ k < n, _))

theorem ticked_succ (m : Machine) (n : Nat) : m.ticked (n + 1) = (m.ticked n).cycle.machine := by
  rw [ticked, List.replicate_succ', after_append]
  rfl

/-- A stretch of cycles that all succeed has its full length. -/
theorem cycles_of_succeedsFor (h : m.SucceedsFor n) :
    (m.cycles n).fault = none ∧ (m.cycles n).machine = m.ticked n ∧ (m.cycles n).ran = n := by
  induction n with
  | zero => exact ⟨rfl, rfl, rfl⟩
  | succ n ih =>
    obtain ⟨hfault, hmachine, hran⟩ := ih fun k hk => h k (Nat.lt_succ_of_lt hk)
    have hcycle : (m.cycles n).machine.cycle.fault = none := by
      rw [hmachine]
      exact h n (Nat.lt_succ_self n)
    obtain ⟨hmachine', hran', hfault'⟩ := cycles_succ_last hfault hcycle
    refine ⟨hfault', ?_, ?_⟩
    · rw [hmachine', hmachine, ticked_succ]
    · rw [hran', hran]

/-- A stretch of cycles ends with the first one that fails, however many were to follow. -/
theorem cycles_of_first_fault (hlt : k < n) (hbefore : m.SucceedsFor k)
    (hfault : (m.ticked k).cycle.fault = some fault) :
    (m.cycles n).fault = some fault ∧ (m.cycles n).machine = m.ticked (k + 1) ∧
      (m.cycles n).ran = k := by
  obtain ⟨hnone, hmachine, hran⟩ := cycles_of_succeedsFor hbefore
  rw [← hmachine] at hfault
  -- the stretch is one of `k` cycles, then the one that fails, then those that are cut off
  obtain ⟨later, rfl⟩ : ∃ later, n = k + (later + 1) := Nat.exists_eq_add_of_lt hlt
  rw [cycles_add_of_success hnone, cycles_succ_of_fault hfault, ticked_succ, ← hmachine]
  refine ⟨hfault, rfl, ?_⟩
  simp [Stretch.append, Stretch.extend, Stretch.start, hfault, hran]

end Machine

namespace Timestep

/-- Charging the clock `t` for all ticks that are due when `elapsed` passes gives `charged`. -/
structure Charged (t : Timestep) (elapsed : Duration) (ticks : UInt32) (charged : Timestep) :
    Prop where
  /-- This is how the clock advances. -/
  advance : t.advance? elapsed = some (ticks, charged)
  /-- All ticks that are due are counted. -/
  ticks_eq : ticks.toNat = t.due elapsed.nanoseconds
  /-- The length of a tick stays the same. -/
  tick : charged.tick = t.tick
  /-- The time of all these ticks is no longer pending. -/
  time : t.due elapsed.nanoseconds * t.tick.nanoseconds + charged.pending.nanoseconds =
    t.pending.nanoseconds + elapsed.nanoseconds
  /-- None of them is due once more. -/
  due_zero : charged.due 0 = 0
  /-- When more time passes, the ticks are due that come on top of them. -/
  due_add : ∀ later, t.due (elapsed.nanoseconds + later) =
    t.due elapsed.nanoseconds + charged.due later

theorem charged_of_advance? {t charged : Timestep} {elapsed : Duration} {ticks : UInt32}
    (h : t.advance? elapsed = some (ticks, charged)) : t.Charged elapsed ticks charged := by
  obtain ⟨hticks, htick, htime⟩ := advance?_eq_some h
  exact ⟨h, hticks, htick, htime, (settled_of_advance? h).due_zero, Timestep.due_add h⟩

end Timestep

namespace Session

variable {σ : Type} [Frontend σ] {s : Session σ} {elapsed : Duration} {ticks : UInt32}
  {timestep : Timestep} {fault : Fault}

/-- A frame after `elapsed` has passed makes these calls, ends so and leaves the session `after`. -/
structure Goes (s : Session σ) (elapsed : Duration) (calls : List Call) (outcome : FrameEnd)
    (after : Session σ) : Prop where
  /-- The calls, in order, lead to what the frame leaves. -/
  makes : Makes s.place calls after.place
  /-- The requests among them are those that a frontend writes down in this frame. -/
  requests : (s.recorded.frame elapsed).session.frontend.requests = calls.filter Call.isRequest
  /-- How the frame ends. -/
  outcome : (s.frame elapsed).outcome = outcome
  /-- The session afterwards. -/
  session : (s.frame elapsed).session = after

/-! ### The calls of the cycles -/

/-- A cycle asks the frontend for nothing. -/
theorem filter_cycleCalls (n : Nat) : (cycleCalls n).filter Call.isRequest = [] :=
  List.filter_eq_nil_iff.2 fun call hcall => by rw [List.eq_of_mem_replicate hcall]; decide

theorem makes_of_succeedsFor {m : Machine} {n : Nat} (f : σ) (h : m.SucceedsFor n) :
    Makes (m, f) (cycleCalls n) (m.ticked n, f) := by
  obtain ⟨hfault, hmachine, hran⟩ := Machine.cycles_of_succeedsFor h
  have hmakes := makes_cycles m f n
  rw [callsOf, hfault, hmachine, hran, Option.map_none, Option.toList_none,
    List.append_nil] at hmakes
  exact hmakes

/-! ### The places of a failure -/

/-- The first cycle that fails ends the frame. -/
theorem goes_of_first_fault {k : Nat}
    (hadvance : s.timestep.advance? elapsed = some (ticks, timestep)) (hlt : k < ticks.toNat)
    (hbefore : s.machine.SucceedsFor k) (hfault : (s.machine.ticked k).cycle.fault = some fault) :
    s.Goes elapsed (cycleCalls k ++ [.cycle (some fault)]) (.failed fault)
      ⟨s.machine.ticked (k + 1), s.frontend, timestep⟩ := by
  obtain ⟨hstretch, hmachine, -⟩ := Machine.cycles_of_first_fault hlt hbefore hfault
  have hframe := frame_of_fault hadvance hstretch
  have hrecorded := frame_of_fault (s := s.recorded) hadvance hstretch
  rw [hmachine] at hframe
  refine ⟨?_, ?_, congrArg (·.outcome) hframe, congrArg (·.session) hframe⟩
  · have hlast : Makes (s.machine.ticked k, s.frontend) [.cycle (some fault)]
        (s.machine.ticked (k + 1), s.frontend) := by
      rw [Machine.ticked_succ]
      exact .cons (.cycle hfault) (.nil _)
    exact (makes_of_succeedsFor s.frontend hbefore).append hlast
  · rw [hrecorded, List.filter_append, filter_cycleCalls]
    rfl

/-- If all cycles succeed but the screen cannot be shown, no events are handled. -/
theorem goes_of_present_fault {shown : σ}
    (hadvance : s.timestep.advance? elapsed = some (ticks, timestep))
    (hcycles : s.machine.SucceedsFor ticks.toNat)
    (hshown : Frontend.present (s.machine.ticked ticks.toNat).screen s.frontend =
      (some fault, shown)) :
    s.Goes elapsed (cycleCalls ticks.toNat ++ [.present (some fault)]) (.failed fault)
      ⟨s.machine.ticked ticks.toNat, shown, timestep⟩ := by
  obtain ⟨hstretch, hmachine, -⟩ := Machine.cycles_of_succeedsFor hcycles
  have hmakes := (makes_of_succeedsFor s.frontend hcycles).append
    (.cons (.presentFailed hshown) (.nil _))
  rw [← hmachine] at hshown hmakes ⊢
  have hframe := frame_of_present_fault hadvance hstretch hshown
  have hrecorded := frame_of_present_fault (s := s.recorded) hadvance hstretch
    (Recorded.present_of hshown)
  refine ⟨hmakes, ?_, congrArg (·.outcome) hframe, congrArg (·.session) hframe⟩
  rw [hrecorded, List.filter_append, filter_cycleCalls]
  rfl

/-- If all cycles succeed and the screen is shown, the events are handled. -/
theorem goes_of_shown {shown : σ}
    (hadvance : s.timestep.advance? elapsed = some (ticks, timestep))
    (hcycles : s.machine.SucceedsFor ticks.toNat)
    (hshown : Frontend.present (s.machine.ticked ticks.toNat).screen s.frontend = (none, shown)) :
    let ran := s.machine.ticked ticks.toNat
    let pumped := Frontend.pump ran.keypad shown
    s.Goes elapsed (cycleCalls ticks.toNat ++ [.present none, .pump pumped.fault])
      (pumped.fault.elim (.completed ticks) .failed)
      ⟨{ ran with screen := ran.screen.present, keypad := pumped.keypad }, pumped.frontend,
        timestep⟩ := by
  obtain ⟨hstretch, hmachine, -⟩ := Machine.cycles_of_succeedsFor hcycles
  have hmakes := (makes_of_succeedsFor s.frontend hcycles).append
    (.cons (.presented hshown) (.cons (.pump rfl) (.nil _)))
  rw [← hmachine] at hshown hmakes ⊢
  intro ran pumped
  have hframe := frame_of_shown hadvance hstretch hshown
  have hrecorded := frame_of_shown (s := s.recorded) hadvance hstretch
    (Recorded.present_of hshown)
  refine ⟨hmakes, ?_, congrArg (·.outcome) hframe, congrArg (·.session) hframe⟩
  rw [hrecorded, List.filter_append, filter_cycleCalls]
  rfl

/-- One frame under failure, for any session and any time that is within the limit of a duration.
Whatever fails, the clock is charged for all ticks that are due.

* If the cycle behind `k` successful ones fails, and it is one of those that are due, the frame ends
  with its fault. The machine is the one that it leaves, and the frontend was asked for nothing.
* If all cycles succeed, the screen is shown. If that fails, the frame ends with this fault and no
  events are handled. Otherwise the events are handled, and the frame is completed or ends with
  their fault; the screen stays shown.

If the clock cannot count the ticks that are due, then there is no number of ticks, and neither a
cycle passes nor is the frontend asked for anything. -/
theorem frame_under_failure (s : Session σ) (elapsed : Duration)
    (hfits : s.timestep.pending.nanoseconds + elapsed.nanoseconds < Duration.limit) :
    (s.recorded.frame elapsed).unrecorded = s.frame elapsed ∧
    (s.timestep.due elapsed.nanoseconds < UInt32.size →
      ∃ ticks timestep, s.timestep.Charged elapsed ticks timestep ∧
        (∀ k fault, k < ticks.toNat → s.machine.SucceedsFor k →
          (s.machine.ticked k).cycle.fault = some fault →
            s.Goes elapsed (cycleCalls k ++ [.cycle (some fault)]) (.failed fault)
              ⟨s.machine.ticked (k + 1), s.frontend, timestep⟩) ∧
        (s.machine.SucceedsFor ticks.toNat →
          let ran := s.machine.ticked ticks.toNat
          let shown := Frontend.present ran.screen s.frontend
          let pumped := Frontend.pump ran.keypad shown.2
          (∀ fault, shown.1 = some fault →
            s.Goes elapsed (cycleCalls ticks.toNat ++ [.present (some fault)]) (.failed fault)
              ⟨ran, shown.2, timestep⟩) ∧
          (shown.1 = none →
            s.Goes elapsed (cycleCalls ticks.toNat ++ [.present none, .pump pumped.fault])
              (pumped.fault.elim (.completed ticks) .failed)
              ⟨{ ran with screen := ran.screen.present, keypad := pumped.keypad },
                pumped.frontend, timestep⟩))) ∧
    (UInt32.size ≤ s.timestep.due elapsed.nanoseconds →
      (s.frame elapsed).outcome = .clockOverflow ∧ (s.frame elapsed).session.place = s.place ∧
        (s.recorded.frame elapsed).session.frontend.requests = []) := by
  refine ⟨frame_unrecorded s.recorded elapsed, fun hcount => ?_, fun hcount => ?_⟩
  · obtain ⟨ticks, timestep, hadvance⟩ := Timestep.exists_advance? hfits hcount
    refine ⟨ticks, timestep, Timestep.charged_of_advance? hadvance,
      fun k fault hlt hbefore hfault => goes_of_first_fault hadvance hlt hbefore hfault,
      fun hcycles => ⟨fun fault hfault => ?_, fun hfault => ?_⟩⟩
    · exact goes_of_present_fault hadvance hcycles (Prod.ext hfault rfl)
    · exact goes_of_shown hadvance hcycles (Prod.ext hfault rfl)
  · have hadvance : s.timestep.advance? elapsed = none :=
      Timestep.advance?_eq_none_iff.2 (.inr hcount)
    rw [frame_of_clockOverflow hadvance, frame_of_clockOverflow (s := s.recorded) hadvance]
    exact ⟨rfl, rfl, rfl⟩

/-- The second word of a program is no instruction. Of three ticks that are due, one is executed and
one fails. Where only one is due, the screen is shown and the events are to be handled, which fails
in its turn. -/
theorem frame_under_failure_unknownOpcode :
    let s : Session Scripted :=
      { machine :=
          (Machine.new {} (Vector.replicate 8 0)).act (.load (Instruction.addByte 0 1).bytes)
        frontend := { pumpFailure := some (1, "lost") }
        timestep := ⟨⟨1000, by decide⟩, .zero, by decide⟩ }
    let charged : Timestep := ⟨⟨1000, by decide⟩, ⟨500, by decide⟩, by decide⟩
    s.Goes ⟨3500, by decide⟩ [.cycle none, .cycle (some (.unknownOpcode 0 0x202))]
        (.failed (.unknownOpcode 0 0x202)) ⟨s.machine.ticked 2, s.frontend, charged⟩ ∧
      (s.recorded.frame ⟨1500, by decide⟩).session.frontend.requests =
        [.present none, .pump (some (.platform "lost"))] ∧
      (s.frame ⟨1500, by decide⟩).session.machine.screen =
        (s.machine.ticked 1).screen.present := by
  intro s charged
  obtain ⟨hfirst, hsecond⟩ :
      s.machine.SucceedsFor 1 ∧
        (s.machine.ticked 1).cycle.fault = some (.unknownOpcode 0 0x202) := by
    decide +kernel
  constructor
  · obtain ⟨-, hgoes, -⟩ := frame_under_failure s ⟨3500, by decide⟩ (by decide)
    obtain ⟨ticks, timestep, hcharged, hcycle, -⟩ := hgoes (by decide)
    have hadvance : s.timestep.advance? ⟨3500, by decide⟩ = some (3, charged) := by decide +kernel
    cases hcharged.advance.symm.trans hadvance
    exact hcycle 1 _ (by decide) hfirst hsecond
  · obtain ⟨-, hgoes, -⟩ := frame_under_failure s ⟨1500, by decide⟩ (by decide)
    obtain ⟨ticks, timestep, hcharged, -, hcompleted⟩ := hgoes (by decide)
    have hadvance : s.timestep.advance? ⟨1500, by decide⟩ = some (1, charged) := by decide +kernel
    cases hcharged.advance.symm.trans hadvance
    have hgoes := (hcompleted hfirst).2 rfl
    refine ⟨hgoes.requests, ?_⟩
    rw [hgoes.session]
    rfl

end Session

end ChipEight
