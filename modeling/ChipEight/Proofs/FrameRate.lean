import ChipEight.Frontend.Scripted
import ChipEight.Proofs.Clock
import ChipEight.Proofs.FrameCases
import ChipEight.Proofs.Lockstep
import ChipEight.Proofs.Runs

/-!
# Independence of the frame rate

A session that is refreshed often and one that is refreshed rarely run the same cycles, as long as
the frontend only watches.

* `Machine.unshown` forgets how often the screen was presented, which is all that a frontend that
  only watches leaves in a machine. No cycle depends on it (`Machine.cycles_unshown`).
* `Frontend.Passive` holds of the frontends that only watch.
* `Session.PlaysOut` relates a number of frames to one stretch of cycles. The frames of every
  session with a passive frontend play out the stretch of all the ticks that are due
  (`Session.playsOut_frames`), so that they depend on the total of the elapsed times alone.
-/

namespace ChipEight

namespace Screen

/-- The screen as if it was never presented. -/
def unshown (s : Screen) : Screen :=
  { s with presented := 0 }

theorem toggleAll_unshown (s : Screen) (cells : List Cell) :
    s.unshown.toggleAll cells = ((s.toggleAll cells).1, (s.toggleAll cells).2.unshown) := by
  induction cells generalizing s with
  | nil => rfl
  | cons c cells ih =>
    have htoggle : (s.unshown.toggle c).2 = (s.toggle c).2.unshown := rfl
    rw [toggleAll_cons, toggleAll_cons, htoggle, ih]
    rfl

end Screen

namespace Machine

/-- The machine as if its screen was never presented. -/
def unshown (m : Machine) : Machine :=
  { m with screen := m.screen.unshown }

/-! ### Cycles do not see how often the screen was presented -/

theorem refusal_unshown (m : Machine) (i : Instruction) : m.unshown.refusal i = m.refusal i := by
  cases i <;> rfl

theorem holds_unshown (m : Machine) (c : Condition) : m.unshown.Holds c ↔ m.Holds c := by
  cases c <;> exact Iff.rfl

theorem effect_unshown (m : Machine) (i : Instruction) :
    m.unshown.effect i = (m.effect i).unshown := by
  -- Only drawing reads the screen, and it reads the pixels.
  cases i with
  | skipIf condition =>
    simp only [effect, holds_unshown]
    rfl
  | draw x y rows =>
    simp only [effect, draw, unshown, v, Screen.toggleAll_unshown]
    rfl
  | _ => rfl

/-- The report as if the screen was never presented. -/
def Report.unshown (r : Report) : Report :=
  { r with machine := r.machine.unshown }

/-- The stretch as if the screen was never presented. -/
def Stretch.unshown (s : Stretch) : Stretch :=
  { s with machine := s.machine.unshown }

theorem awaitKey_unshown (m : Machine) (x : Fin 16) :
    m.unshown.awaitKey x = (m.awaitKey x).unshown := by
  have htake : m.unshown.keypad.take = m.keypad.take := rfl
  unfold awaitKey
  rw [htake]
  split <;> rfl

theorem lockstep_unshown (m : Machine) : Lockstep (fun m m' => m' = m.unshown) m m.unshown where
  waiting := rfl
  pc := rfl
  word _ _ := rfl
  start := rfl
  fetched := rfl
  refusal i _ := refusal_unshown m.fetched i
  effect i _ _ := congrArg tickTimers (effect_unshown m.fetched i)
  awaitKey x _ := by
    rw [awaitKey_unshown]
    exact ⟨rfl, rfl, rfl⟩

/-- A cycle does the same whether or not the screen was presented before. -/
theorem cycle_unshown (m : Machine) : m.unshown.cycle = m.cycle.unshown :=
  (lockstep_unshown m).cycle.eq

theorem Stretch.extend_unshown (s : Stretch) : s.unshown.extend = s.extend.unshown := by
  have hcycle : s.unshown.machine.cycle = s.machine.cycle.unshown := cycle_unshown s.machine
  unfold extend
  rw [hcycle]
  rfl

theorem Stretch.run_unshown (s : Stretch) (n : Nat) : s.unshown.run n = (s.run n).unshown := by
  induction n generalizing s with
  | zero => rfl
  | succ n ih =>
    have hfault : s.extend.unshown.fault = s.extend.fault := rfl
    rw [run_succ, run_succ, extend_unshown, hfault, ih]
    split <;> rfl

/-- A stretch of cycles does the same whether or not the screen was presented before. -/
theorem cycles_unshown (m : Machine) (n : Nat) : m.unshown.cycles n = (m.cycles n).unshown :=
  Stretch.run_unshown (Stretch.start m) n

/-- Machines that differ only in how often their screens were presented run the same cycles. -/
theorem cycles_congr {m m' : Machine} (h : m.unshown = m'.unshown) (n : Nat) :
    (m.cycles n).unshown = (m'.cycles n).unshown := by
  rw [← cycles_unshown, ← cycles_unshown, h]

end Machine

/-! ### Frontends that only watch -/

namespace Frontend

section
variable {σ : Type} [Frontend σ]

/-- The requests of a session can bring a frontend from one state to another. -/
inductive Leads (f : σ) : σ → Prop where
  /-- Nothing was asked. -/
  | refl : Leads f f
  /-- The screen was to be shown. -/
  | present {f' : σ} (h : Leads f f') (screen : Screen) : Leads f (Frontend.present screen f').2
  /-- The events were to be handled. -/
  | pump {f' : σ} (h : Leads f f') (keypad : HexKeypad) :
      Leads f (Frontend.pump keypad f').frontend

/-- Whatever a session asks, and however often, the frontend never fails and never touches the
keypad. -/
structure Passive (f : σ) : Prop where
  /-- The screen is shown without failure. -/
  present : ∀ f', Leads f f' → ∀ screen, (Frontend.present screen f').1 = none
  /-- The events are handled without failure. -/
  pump : ∀ f', Leads f f' → ∀ keypad, (Frontend.pump keypad f').fault = none
  /-- No key is pressed or released. -/
  keypad : ∀ f', Leads f f' → ∀ keypad, (Frontend.pump keypad f').keypad = keypad

theorem Leads.trans {f f' f'' : σ} (h : Leads f f') (h' : Leads f' f'') : Leads f f'' := by
  induction h' with
  | refl => exact h
  | present _ screen ih => exact ih.present screen
  | pump _ keypad ih => exact ih.pump keypad

theorem Passive.of_leads {f f' : σ} (hpassive : Passive f) (h : Leads f f') : Passive f' where
  present := fun f'' h' => hpassive.present f'' (h.trans h')
  pump := fun f'' h' => hpassive.pump f'' (h.trans h')
  keypad := fun f'' h' => hpassive.keypad f'' (h.trans h')

end

end Frontend

/-- A script without key events and failures only watches. -/
theorem Scripted.passive {f : Scripted} (hevents : f.events = []) (hpump : f.pumpFailure = none)
    (hpresent : f.presentFailure = none) : Frontend.Passive f := by
  -- no request puts anything into the script
  have hscript : ∀ f', Frontend.Leads f f' →
      f'.events = [] ∧ f'.pumpFailure = none ∧ f'.presentFailure = none := by
    intro f' hleads
    induction hleads with
    | refl => exact ⟨hevents, hpump, hpresent⟩
    | present _ _ ih => exact ih
    | pump _ _ ih => exact ih
  refine ⟨fun f' hleads screen => ?_, fun f' hleads keypad => ?_, fun f' hleads keypad => ?_⟩ <;>
    obtain ⟨hevents', hpump', hpresent'⟩ := hscript f' hleads
  · show failureAt f'.presentFailure _ = none
    rw [hpresent', failureAt]
  · show failureAt f'.pumpFailure _ = none
    rw [hpump', failureAt]
  · show (f'.events.filter _).foldl _ keypad = keypad
    rw [hevents', List.filter_nil, List.foldl_nil]

namespace Session

variable {σ : Type}

/-- What a number of frames leaves behind. -/
structure Footage (σ : Type) where
  /-- The session after the last frame. -/
  session : Session σ
  /-- How the last frame ended, if it was not completed. -/
  failure : Option FrameEnd
  /-- The lines logged, in order. -/
  log : Array LogLine

section
variable [Frontend σ]

/-- One frame for each of the elapsed times, none after one that is not completed. -/
def frames (s : Session σ) : List Duration → Footage σ
  | [] => ⟨s, none, #[]⟩
  | elapsed :: times =>
    let report := s.frame elapsed
    match report.outcome with
    | .completed _ =>
      let later := report.session.frames times
      { later with log := report.log ++ later.log }
    | failure => ⟨report.session, some failure, report.log⟩

/-- The frames of a session do what one stretch of cycles does, the one of all ticks that are due
when the time `passed` is added to what was pending. -/
structure PlaysOut (s : Session σ) (passed : Nat) (footage : Footage σ) : Prop where
  /-- The fault of the stretch is the only way to fail. -/
  failure : footage.failure = (s.machine.cycles (s.timestep.due passed)).fault.map .failed
  /-- The machines agree but for how often the screen was presented. -/
  machine : footage.session.machine.unshown =
    (s.machine.cycles (s.timestep.due passed)).machine.unshown
  /-- The same lines are logged. -/
  log : footage.log = (s.machine.cycles (s.timestep.due passed)).log
  /-- The length of a tick stays the same. -/
  tick : footage.session.timestep.tick = s.timestep.tick
  /-- Unless a frame fails, the time that the cycles do not cover is pending. -/
  pending : footage.failure = none →
    s.timestep.due passed * s.timestep.tick.nanoseconds
        + footage.session.timestep.pending.nanoseconds =
      s.timestep.pending.nanoseconds + passed

/-! ### Frames of a passive frontend -/

variable {s : Session σ}

/-- A passive frontend leaves nothing in the machine but that the screen was presented. -/
theorem refresh_of_passive (hpassive : Frontend.Passive s.frontend) :
    ∃ f', Frontend.Leads s.frontend f' ∧
      s.refresh =
        (none, { s with
          frontend := f'
          machine := { s.machine with screen := s.machine.screen.present } }) := by
  -- The frontend goes on from the state in which the presentation has left it.
  obtain ⟨shown, hshown⟩ :
      ∃ shown, Frontend.present s.machine.screen s.frontend = (none, shown) :=
    ⟨_, Prod.ext (hpassive.present s.frontend .refl s.machine.screen) rfl⟩
  have hleads : Frontend.Leads s.frontend shown := by
    have hpresent := (Frontend.Leads.refl (f := s.frontend)).present s.machine.screen
    rw [hshown] at hpresent
    exact hpresent
  refine ⟨_, hleads.pump s.machine.keypad, ?_⟩
  rw [refresh_of_shown hshown, hpassive.pump shown hleads, hpassive.keypad shown hleads]

/-- Without a fault the frame is completed, and the screen was presented once. -/
theorem frame_of_passive {t' : Timestep} {elapsed : Duration} {count : UInt32}
    (hpassive : Frontend.Passive s.frontend)
    (hadvance : s.timestep.advance? elapsed = some (count, t'))
    (hfault : (s.machine.cycles count.toNat).fault = none) :
    ∃ s' : Session σ, Frontend.Leads s.frontend s'.frontend ∧ s'.timestep = t' ∧
      s'.machine.unshown = (s.machine.cycles count.toNat).machine.unshown ∧
      s.frame elapsed = ⟨s', .completed count, (s.machine.cycles count.toNat).log⟩ := by
  -- What is refreshed is the session after the cycles.
  let ran : Session σ :=
    { s with machine := (s.machine.cycles count.toNat).machine, timestep := t' }
  obtain ⟨f', hleads, hrefresh⟩ := refresh_of_passive (s := ran) hpassive
  refine ⟨{ ran with
    frontend := f'
    machine := { ran.machine with screen := ran.machine.screen.present } }, hleads, rfl, rfl, ?_⟩
  rw [frame_of_success hadvance hfault, hrefresh]
  rfl

theorem playsOut_nil (hsettled : s.timestep.Settled) : PlaysOut s 0 (s.frames []) := by
  have hdue : s.timestep.due 0 = 0 := hsettled.due_zero
  refine ⟨?_, ?_, ?_, rfl, fun _ => ?_⟩ <;> rw [hdue]
  · rfl
  · rfl
  · rfl
  · rw [Nat.zero_mul, Nat.zero_add, Nat.add_zero]
    rfl

/-- A first frame that fails plays out the whole stretch, since the stretch ends at that fault. -/
theorem playsOut_of_fault {t' : Timestep} {elapsed : Duration} {count : UInt32} {fault : Fault}
    (hadvance : s.timestep.advance? elapsed = some (count, t'))
    (hfault : (s.machine.cycles count.toNat).fault = some fault) (times : List Duration) :
    PlaysOut s (Duration.total (elapsed :: times)) (s.frames (elapsed :: times)) := by
  obtain ⟨hdrained, htick, -⟩ := Timestep.advance?_eq_some hadvance
  -- The cycles that would be due later are dropped in both runs.
  have hcycles : s.machine.cycles (s.timestep.due (Duration.total (elapsed :: times))) =
      s.machine.cycles count.toNat := by
    rw [Duration.total_cons, Timestep.due_add hadvance, ← hdrained,
      Machine.cycles_add_of_fault hfault]
  unfold frames
  rw [frame_of_fault hadvance hfault]
  refine ⟨?_, ?_, ?_, htick, fun h => nomatch h⟩ <;> rw [hcycles]
  rw [hfault]
  rfl

/-- A first frame that is completed is followed by what plays out the rest. -/
theorem playsOut_of_success {s' : Session σ} {elapsed : Duration} {count : UInt32}
    {times : List Duration}
    (hadvance : s.timestep.advance? elapsed = some (count, s'.timestep))
    (hsuccess : (s.machine.cycles count.toNat).fault = none)
    (hmachine : s'.machine.unshown = (s.machine.cycles count.toNat).machine.unshown)
    (hframe :
      s.frame elapsed = ⟨s', .completed count, (s.machine.cycles count.toNat).log⟩)
    (hlater : PlaysOut s' (Duration.total times) (s'.frames times)) :
    PlaysOut s (Duration.total (elapsed :: times)) (s.frames (elapsed :: times)) := by
  obtain ⟨hdrained, htick, htime⟩ := Timestep.advance?_eq_some hadvance
  -- The later frames start from `s'`, and the stretch goes on from a machine that differs from the
  -- one of `s'` in how often the screen was presented.
  have hcongr := Machine.cycles_congr hmachine (s'.timestep.due (Duration.total times))
  have hcycles : s.machine.cycles (s.timestep.due (Duration.total (elapsed :: times))) =
      (s.machine.cycles count.toNat).append
        ((s.machine.cycles count.toNat).machine.cycles
          (s'.timestep.due (Duration.total times))) := by
    rw [Duration.total_cons, Timestep.due_add hadvance, ← hdrained,
      Machine.cycles_add_of_success hsuccess]
  unfold frames
  rw [hframe]
  refine ⟨?_, ?_, ?_, hlater.tick.trans htick, fun hfailure => ?_⟩
  · rw [hcycles]
    show (s'.frames times).failure = _
    rw [hlater.failure, show (s'.machine.cycles _).fault = _ from congrArg (·.fault) hcongr]
    rfl
  · rw [hcycles]
    exact hlater.machine.trans (congrArg (·.machine) hcongr)
  · rw [hcycles]
    show _ ++ (s'.frames times).log = _ ++ _
    rw [hlater.log]
    exact congrArg (_ ++ ·.log) hcongr
  · have hpending := hlater.pending hfailure
    rw [htick] at hpending
    show _ + (s'.frames times).session.timestep.pending.nanoseconds = _
    rw [Duration.total_cons, Timestep.due_add hadvance, Nat.add_mul]
    omega

/-- The frames of a session with a passive frontend play out all the ticks that are due. -/
theorem playsOut_frames (hpassive : Frontend.Passive s.frontend) (hsettled : s.timestep.Settled)
    {times : List Duration} (haccepts : s.timestep.Accepts times) :
    PlaysOut s (Duration.total times) (s.frames times) := by
  induction times generalizing s with
  | nil => exact playsOut_nil hsettled
  | cons elapsed times ih =>
    obtain ⟨count, t', hadvance, htimes⟩ := haccepts.exists_advance?
    cases hfault : (s.machine.cycles count.toNat).fault with
    | some fault => exact playsOut_of_fault hadvance hfault times
    | none =>
      obtain ⟨s', hleads, rfl, hmachine, hframe⟩ := frame_of_passive hpassive hadvance hfault
      have hlater := ih (hpassive.of_leads hleads) (Timestep.settled_of_advance? hadvance) htimes
      exact playsOut_of_success hadvance hfault hmachine hframe hlater

/-- The emulation does not depend on the frame rate: elapsed times with the same total lead to the
same failure or to none, to the same machine but for the number of presentations, to the same log
and, unless a frame fails, to the same clock. -/
theorem frames_depend_on_total (s : Session σ) (hpassive : Frontend.Passive s.frontend)
    (hclock : s.timestep.Reachable) (times times' : List Duration)
    (htotal : Duration.total times = Duration.total times')
    (haccepts : s.timestep.Accepts times) (haccepts' : s.timestep.Accepts times') :
    let footage := s.frames times
    let footage' := s.frames times'
    footage.failure = footage'.failure ∧
      (∀ ending, footage.failure = some ending → ∃ fault, ending = .failed fault) ∧
      footage.session.machine.unshown = footage'.session.machine.unshown ∧
      footage.log = footage'.log ∧
      (footage.failure = none → footage.session.timestep = footage'.session.timestep) := by
  intro footage footage'
  -- both sequences play out the same total, and what is played out is told by the total
  have hplays : PlaysOut s (Duration.total times) footage :=
    playsOut_frames hpassive hclock.settled haccepts
  have hplays' : PlaysOut s (Duration.total times) footage' :=
    htotal ▸ playsOut_frames hpassive hclock.settled haccepts'
  have hfailure : footage.failure = footage'.failure := hplays.failure.trans hplays'.failure.symm
  refine ⟨hfailure, fun ending hending => ?_, hplays.machine.trans hplays'.machine.symm,
    hplays.log.trans hplays'.log.symm, fun hnone => ?_⟩
  · rw [hplays.failure, Option.map_eq_some_iff] at hending
    obtain ⟨fault, -, rfl⟩ := hending
    exact ⟨fault, rfl⟩
  · have hpending := hplays.pending hnone
    have hpending' := hplays'.pending (hfailure ▸ hnone)
    have htick : footage.session.timestep.tick = footage'.session.timestep.tick :=
      hplays.tick.trans hplays'.tick.symm
    exact Timestep.ext htick (Duration.ext (by omega))

end

/-- A program that counts in a loop, over 50 ms in two frames and in one: it runs three cycles. -/
theorem frames_depend_on_total_loop :
    let s : Session Scripted :=
      { machine := (Machine.new {} (Vector.replicate 8 0)).act
          (.load ((Instruction.addByte 0 1).bytes ++ (Instruction.jump 0x200).bytes))
        frontend := {}
        timestep := ⟨⟨16666666, by decide⟩, .zero, by decide⟩ }
    let times : List Duration := [⟨10000000, by decide⟩, ⟨40000000, by decide⟩]
    let times' : List Duration := [⟨50000000, by decide⟩]
    Frontend.Passive s.frontend ∧ s.timestep.Reachable ∧
      Duration.total times = Duration.total times' ∧
      s.timestep.Accepts times ∧ s.timestep.Accepts times' ∧ (s.frames times).failure = none ∧
      (s.frames times).session.machine.unshown = (s.frames times').session.machine.unshown ∧
      (s.frames times).session.timestep = (s.frames times').session.timestep := by
  intro s times times'
  have hpassive : Frontend.Passive s.frontend := Scripted.passive rfl rfl rfl
  have hclock : s.timestep.Reachable := .ofRate 60 rfl
  have htotal : Duration.total times = Duration.total times' := rfl
  have haccepts : s.timestep.Accepts times := Timestep.accepts_of_total (by decide) (by decide)
  have haccepts' : s.timestep.Accepts times' := Timestep.accepts_of_total (by decide) (by decide)
  have hfailure : (s.frames times).failure = none := by decide +kernel
  obtain ⟨-, -, hmachine, -, htimestep⟩ :=
    frames_depend_on_total s hpassive hclock times times' htotal haccepts haccepts'
  exact ⟨hpassive, hclock, htotal, haccepts, haccepts', hfailure, hmachine, htimestep hfailure⟩

end Session

end ChipEight
