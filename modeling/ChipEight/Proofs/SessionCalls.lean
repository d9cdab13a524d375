import ChipEight.Proofs.FrameCases

/-!
# The calls of a session

A session asks its frontend whether it is closed, to show the screen and to handle the events, and
lets its machine pass cycles. There are two views of these calls.

* `Session.Makes` follows them from the outside: each call has the answer that the machine or the
  frontend gives in its state, and takes the two of them to the next state.
* `Recorded` is a frontend that writes down from the inside what it is asked for, and passes it on
  to another one. The session that runs on it (`Session.recorded`) is the one that runs without it
  (`Session.run_unrecorded`), so what it wrote down was asked by the session itself.

The two agree (`Session.Makes.forget`).
-/

namespace ChipEight

/-- A call that a session makes, with its answer. -/
inductive Call where
  /-- The frontend was asked whether it is closed. -/
  | isClosed (answer : Bool)
  /-- The machine was to pass one cycle, which may have failed. -/
  | cycle (fault : Option Fault)
  /-- The screen was to be shown, which may have failed. -/
  | present (fault : Option Fault)
  /-- The events were to be handled, which may have failed. -/
  | pump (fault : Option Fault)
deriving DecidableEq, Repr

namespace Call

/-- The screen was to be shown. -/
def isPresent : Call → Bool
  | present _ => true
  | _ => false

/-- The events were to be handled. -/
def isPump : Call → Bool
  | pump _ => true
  | _ => false

/-- The frontend was to do something. -/
def isRequest (call : Call) : Bool :=
  call.isPresent || call.isPump

end Call

namespace Session

variable {σ : Type}

/-- What a session makes its calls to. -/
def place (s : Session σ) : Machine × σ :=
  (s.machine, s.frontend)

/-! ### Calls and what they do -/

section
variable [Frontend σ]

/-- A call is answered so in a state of the machine and the frontend, and leads to another one. -/
inductive Made : Machine × σ → Call → Machine × σ → Prop where
  /-- Asking changes nothing. -/
  | isClosed {m : Machine} {f : σ} {answer : Bool} (hanswer : Frontend.isClosed f = answer) :
      Made (m, f) (.isClosed answer) (m, f)
  /-- The frontend has no part in a cycle. -/
  | cycle {m : Machine} {f : σ} {fault : Option Fault} (hfault : m.cycle.fault = fault) :
      Made (m, f) (.cycle fault) (m.cycle.machine, f)
  /-- A screen that could not be shown does not count as shown. -/
  | presentFailed {m : Machine} {f shown : σ} {fault : Fault}
      (hshown : Frontend.present m.screen f = (some fault, shown)) :
      Made (m, f) (.present (some fault)) (m, shown)
  /-- The screen was shown. -/
  | presented {m : Machine} {f shown : σ}
      (hshown : Frontend.present m.screen f = (none, shown)) :
      Made (m, f) (.present none) ({ m with screen := m.screen.present }, shown)
  /-- The events that happened are kept, also if a later one could not be handled. -/
  | pump {m : Machine} {f : σ} {pumped : Pumped σ} (hpumped : Frontend.pump m.keypad f = pumped) :
      Made (m, f) (.pump pumped.fault) ({ m with keypad := pumped.keypad }, pumped.frontend)

/-- These calls are made one after the other. -/
inductive Makes : Machine × σ → List Call → Machine × σ → Prop where
  /-- Nothing is called. -/
  | nil (p : Machine × σ) : Makes p [] p
  /-- A call is made, and then the others. -/
  | cons {p p' p'' : Machine × σ} {call : Call} {calls : List Call} (hcall : Made p call p')
      (hcalls : Makes p' calls p'') : Makes p (call :: calls) p''

theorem Makes.append {p p' p'' : Machine × σ} {calls calls' : List Call} (h : Makes p calls p')
    (h' : Makes p' calls' p'') : Makes p (calls ++ calls') p'' := by
  induction h with
  | nil p => exact h'
  | cons hcall _ ih => exact .cons hcall (ih h')

/-- The calls of `n` cycles that succeed. -/
def cycleCalls (n : Nat) : List Call :=
  List.replicate n (.cycle none)

/-- The calls of a stretch of cycles: those that succeeded and, if there is one, the one that
failed. -/
def callsOf (stretch : Machine.Stretch) : List Call :=
  cycleCalls stretch.ran ++ (stretch.fault.map fun fault => Call.cycle (some fault)).toList

theorem makes_cycles (m : Machine) (f : σ) (n : Nat) :
    Makes (m, f) (callsOf (m.cycles n)) ((m.cycles n).machine, f) := by
  induction n generalizing m with
  | zero => exact .nil _
  | succ n ih =>
    cases hfault : m.cycle.fault with
    | some fault =>
      have hcalls : callsOf (m.cycles (n + 1)) = [.cycle (some fault)] := by
        simp [Machine.cycles_succ_of_fault hfault, callsOf, cycleCalls, Machine.Stretch.extend,
          Machine.Stretch.start, hfault]
      rw [hcalls, Machine.cycles_succ_of_fault hfault]
      exact .cons (.cycle hfault) (.nil _)
    | none =>
      -- The call of the first cycle comes before those of the others.
      have hcalls : callsOf (m.cycles (n + 1)) =
          .cycle none :: callsOf (m.cycle.machine.cycles n) := by
        simp [Machine.cycles_succ_of_success hfault, callsOf, cycleCalls, Machine.Stretch.extend,
          Machine.Stretch.start, Machine.Stretch.append, hfault, Nat.one_add,
          List.replicate_succ]
      rw [hcalls, Machine.cycles_succ_of_success hfault]
      exact .cons (.cycle hfault) (ih m.cycle.machine)

end

end Session

/-! ### A frontend that writes down its requests -/

/-- A frontend with the requests that came to it. -/
structure Recorded (σ : Type) where
  /-- The frontend. -/
  frontend : σ
  /-- The requests and their answers, in order. -/
  requests : List Call

/-- Every request is passed on and written down. Asking whether the frontend is closed cannot change
it, so that leaves no trace. -/
instance {σ : Type} [Frontend σ] : Frontend (Recorded σ) where
  isClosed f := Frontend.isClosed f.frontend
  present screen f :=
    let answer := Frontend.present screen f.frontend
    (answer.1, ⟨answer.2, f.requests ++ [.present answer.1]⟩)
  pump keypad f :=
    let pumped := Frontend.pump keypad f.frontend
    { keypad := pumped.keypad
      frontend := ⟨pumped.frontend, f.requests ++ [.pump pumped.fault]⟩
      fault := pumped.fault }

/-- A request to show the screen is answered by the frontend that it is passed on to. -/
theorem Recorded.present_of {σ : Type} [Frontend σ] {screen : Screen} {f shown : σ}
    {requests : List Call} {fault : Option Fault}
    (h : Frontend.present screen f = (fault, shown)) :
    Frontend.present screen (⟨f, requests⟩ : Recorded σ) =
      (fault, ⟨shown, requests ++ [.present fault]⟩) := by
  show ((Frontend.present screen f).1, _) = _
  rw [h]

theorem Recorded.of_present {σ : Type} [Frontend σ] {screen : Screen} {f shown : Recorded σ}
    {fault : Option Fault} (h : Frontend.present screen f = (fault, shown)) :
    Frontend.present screen f.frontend = (fault, shown.frontend) ∧
      shown.requests = f.requests ++ [.present fault] := by
  cases h
  exact ⟨rfl, rfl⟩

namespace Session

variable {σ : Type}

/-- The session on a frontend that writes down its requests. -/
def recorded (s : Session σ) : Session (Recorded σ) :=
  ⟨s.machine, ⟨s.frontend, []⟩, s.timestep⟩

/-- The session without the requests that were written down. -/
def unrecorded (s : Session (Recorded σ)) : Session σ :=
  ⟨s.machine, s.frontend.frontend, s.timestep⟩

/-- The frame without the requests that were written down. -/
def FrameReport.unrecorded (r : FrameReport (Recorded σ)) : FrameReport σ :=
  { r with session := r.session.unrecorded }

/-- The session on its way without the requests that were written down. -/
def Progress.unrecorded (p : Progress (Recorded σ)) : Progress σ :=
  { p with session := p.session.unrecorded }

/-! ### Writing down changes nothing -/

section
variable [Frontend σ]

theorem frame_unrecorded (s : Session (Recorded σ)) (elapsed : Duration) :
    (s.frame elapsed).unrecorded = s.unrecorded.frame elapsed := by
  -- whichever way the frame goes, the frontend gives the same answers without the list
  cases s.frameCase elapsed with
  | clockOverflow hadvance hframe =>
    rw [hframe, frame_of_clockOverflow (s := s.unrecorded) hadvance]
    rfl
  | cycle ticks timestep fault hadvance hfault hframe =>
    rw [hframe, frame_of_fault (s := s.unrecorded) hadvance hfault]
    rfl
  | present ticks timestep fault shown hadvance hsuccess hshown hframe =>
    obtain ⟨hshown', -⟩ := Recorded.of_present hshown
    rw [hframe, frame_of_present_fault (s := s.unrecorded) hadvance hsuccess hshown']
    rfl
  | pump ticks timestep shown pumped hadvance hsuccess hshown hpumped hframe =>
    obtain ⟨hshown', -⟩ := Recorded.of_present hshown
    rw [hframe, frame_of_shown (s := s.unrecorded) hadvance hsuccess hshown', ← hpumped]
    rfl

theorem advance_unrecorded (p : Progress (Recorded σ)) (elapsed : Duration) :
    (p.advance elapsed).unrecorded = p.unrecorded.advance elapsed := by
  have hasked : Frontend.isClosed p.unrecorded.session.frontend =
      Frontend.isClosed p.session.frontend := rfl
  have hframe : p.unrecorded.session.frame elapsed = (p.session.frame elapsed).unrecorded :=
    (frame_unrecorded p.session elapsed).symm
  unfold Progress.advance
  rw [hasked, hframe]
  dsimp only [FrameReport.unrecorded]
  split
  · rfl
  · cases (p.session.frame elapsed).outcome <;> rfl

theorem progress_run_unrecorded (clock : Nat → Duration) (n : Nat) (p : Progress (Recorded σ)) :
    (Progress.run clock n p).unrecorded = Progress.run clock n p.unrecorded := by
  induction n generalizing p with
  | zero => rfl
  | succ n ih =>
    have hadvance : p.unrecorded.advance (clock p.unrecorded.frames) =
        (p.advance (clock p.frames)).unrecorded := (advance_unrecorded p _).symm
    have hending : p.unrecorded.ending = p.ending := rfl
    rw [Progress.run, Progress.run, hadvance, hending]
    split
    · rfl
    · exact ih _

/-- A session goes the same way whether or not its requests are written down. -/
theorem run_unrecorded (s : Session σ) (clock : Nat → Duration) (n : Nat) :
    (s.recorded.run clock n).unrecorded = s.run clock n :=
  progress_run_unrecorded clock n (.start s.recorded)

/-! ### The two views agree -/

/-- A state without the requests that were written down. -/
def forget (p : Machine × Recorded σ) : Machine × σ :=
  (p.1, p.2.frontend)

/-- What is written down about a call. -/
theorem Made.forget {p p' : Machine × Recorded σ} {call : Call} (h : Made p call p') :
    Made (Session.forget p) call (Session.forget p') ∧
      p'.2.requests = p.2.requests ++ [call].filter Call.isRequest := by
  cases h with
  | isClosed hanswer => exact ⟨.isClosed hanswer, (List.append_nil _).symm⟩
  | cycle hfault => exact ⟨.cycle hfault, (List.append_nil _).symm⟩
  | presentFailed hshown =>
    obtain ⟨hshown', hrequests⟩ := Recorded.of_present hshown
    exact ⟨.presentFailed hshown', hrequests⟩
  | presented hshown =>
    obtain ⟨hshown', hrequests⟩ := Recorded.of_present hshown
    exact ⟨.presented hshown', hrequests⟩
  | pump hpumped =>
    cases hpumped
    exact ⟨.pump rfl, rfl⟩

/-- What is written down about calls that are made one after the other. -/
theorem Makes.forget {p p' : Machine × Recorded σ} {calls : List Call} (h : Makes p calls p') :
    Makes (Session.forget p) calls (Session.forget p') ∧
      p'.2.requests = p.2.requests ++ calls.filter Call.isRequest := by
  induction h with
  | nil p => exact ⟨.nil _, (List.append_nil _).symm⟩
  | @cons p p' p'' call calls hcall hcalls ih =>
    obtain ⟨hmade, hrequests⟩ := hcall.forget
    obtain ⟨hmakes, hrequests'⟩ := ih
    refine ⟨.cons hmade hmakes, ?_⟩
    rw [hrequests', hrequests, List.append_assoc, ← List.filter_append, List.singleton_append]

end

end Session

end ChipEight
