import ChipEight.Proofs.SessionCalls

/-!
# The order of the calls of a session

* `Session.frameCalls` are the calls of a completed frame and `Session.LastCalls` the ones behind
  the last completed frame, by how the session has ended. `Session.FollowsOrder` puts them together.
* `Session.Protocol` says what this order amounts to: the screen is shown and the events are handled
  by turns, and a call whose answer ends the session is its last one.
* `Session.FollowsOrder.protocol`: the protocol follows from the order.
-/

namespace ChipEight

namespace Call

/-- How a session ends because of the answer, if it does. -/
def ending? : Call → Option Session.Ending
  | isClosed true => some .closed
  | cycle (some fault) | present (some fault) | pump (some fault) => some (.aborted fault)
  | _ => none

end Call

namespace Session

/-- The first calls of a frame, up to the last of the `n` cycles that pass in it. -/
def opening (n : Nat) : List Call :=
  .isClosed false :: cycleCalls n

/-- The calls of a completed frame in which `n` cycles passed. -/
def frameCalls (n : Nat) : List Call :=
  opening n ++ [.present none, .pump none]

theorem forall_mem_opening {P : Call → Prop} (hasked : P (.isClosed false))
    (hcycle : P (.cycle none)) (n : Nat) : ∀ call ∈ opening n, P call := by
  intro call hcall
  rcases List.mem_cons.1 hcall with rfl | hcall
  · exact hasked
  · rw [List.eq_of_mem_replicate hcall]
    exact hcycle

/-- The calls behind the last completed frame of a session with the given ending. -/
inductive LastCalls : Option Ending → List Call → Prop
  /-- The session goes on. -/
  | running : LastCalls none []
  /-- The frontend was closed. -/
  | closed : LastCalls (some .closed) [.isClosed true]
  /-- A cycle failed: the frontend was asked for nothing else. -/
  | cycle (n : Nat) (fault : Fault) : LastCalls (some (.aborted fault))
      (opening n ++ [.cycle (some fault)])
  /-- The screen could not be shown: no events were handled. -/
  | present (n : Nat) (fault : Fault) : LastCalls (some (.aborted fault))
      (opening n ++ [.present (some fault)])
  /-- The events could not be handled. -/
  | pump (n : Nat) (fault : Fault) : LastCalls (some (.aborted fault))
      (opening n ++ [.present none, .pump (some fault)])
  /-- The clock could not take up the time that passed. -/
  | clockOverflow : LastCalls (some .clockOverflow) [.isClosed false]

/-- The calls are those of one completed frame after another, `frames` in all, and the last calls
behind them. -/
def FollowsOrder (calls : List Call) (frames : Nat) (ending : Option Ending) : Prop :=
  ∃ cycles : List Nat, ∃ last : List Call, cycles.length = frames ∧ LastCalls ending last ∧
    calls = cycles.flatMap frameCalls ++ last

/-- A completed frame keeps the order. -/
theorem FollowsOrder.frame {calls : List Call} {frames : Nat} (h : FollowsOrder calls frames none)
    (n : Nat) : FollowsOrder (calls ++ frameCalls n) (frames + 1) none := by
  obtain ⟨cycles, last, hlength, hlast, hcalls⟩ := h
  cases hlast
  refine ⟨cycles ++ [n], [], ?_, .running, ?_⟩
  · rw [List.length_append, hlength, List.length_singleton]
  · rw [hcalls, List.append_nil, List.append_nil, List.flatMap_append, List.flatMap_singleton]

/-- The last calls keep the order, however the session ends. -/
theorem FollowsOrder.last {calls last : List Call} {frames : Nat} {ending : Option Ending}
    (h : FollowsOrder calls frames none) (hlast : LastCalls ending last) :
    FollowsOrder (calls ++ last) frames ending := by
  obtain ⟨cycles, last', hlength, hlast', hcalls⟩ := h
  cases hlast'
  exact ⟨cycles, last, hlength, hlast, by rw [hcalls, List.append_nil]⟩

/-! ### Showing and handling by turns -/

/-- As many presentations as pumps. -/
def Balanced (calls : List Call) : Prop :=
  calls.countP Call.isPresent = calls.countP Call.isPump

/-- Presentations and pumps take turns, beginning with a presentation: at every moment there were as
many of the ones as of the others, or one presentation more. -/
def TakesTurns (calls : List Call) : Prop :=
  ∀ n, Balanced (calls.take n) ∨
    (calls.take n).countP Call.isPresent = (calls.take n).countP Call.isPump + 1

/-- Neither a presentation nor a pump. -/
def Silent (calls : List Call) : Prop :=
  ∀ call ∈ calls, call.isPresent = false ∧ call.isPump = false

theorem Silent.countP {calls : List Call} (h : Silent calls) :
    calls.countP Call.isPresent = 0 ∧ calls.countP Call.isPump = 0 :=
  ⟨List.countP_eq_zero.2 fun call hcall => Bool.not_eq_true _ ▸ (h call hcall).1,
    List.countP_eq_zero.2 fun call hcall => Bool.not_eq_true _ ▸ (h call hcall).2⟩

theorem Silent.balanced {calls : List Call} (h : Silent calls) : Balanced calls :=
  h.countP.1.trans h.countP.2.symm

theorem Silent.takesTurns {calls : List Call} (h : Silent calls) : TakesTurns calls :=
  fun _ => .inl (Silent.balanced fun call hcall => h call (List.mem_of_mem_take hcall))

theorem Balanced.append {calls later : List Call} (h : Balanced calls) (hlater : Balanced later) :
    Balanced (calls ++ later) := by
  unfold Balanced at *
  rw [List.countP_append, List.countP_append, h, hlater]

theorem TakesTurns.append {calls later : List Call} (h : TakesTurns calls)
    (hbalanced : Balanced calls) (hlater : TakesTurns later) : TakesTurns (calls ++ later) := by
  intro n
  rw [List.take_append]
  rcases Nat.le_total n calls.length with hn | hn
  · rw [Nat.sub_eq_zero_of_le hn, List.take_zero, List.append_nil]
    exact h n
  · rw [List.take_of_length_le hn]
    rcases hlater (n - calls.length) with hturn | hturn
    · exact .inl (hbalanced.append hturn)
    · right
      unfold Balanced at hbalanced
      rw [List.countP_append, List.countP_append, hturn, hbalanced, Nat.add_assoc]

theorem silent_nil : Silent [] := nofun

theorem silent_singleton {call : Call} (hpresent : call.isPresent = false)
    (hpump : call.isPump = false) : Silent [call] :=
  List.forall_mem_singleton.2 ⟨hpresent, hpump⟩

theorem silent_opening (n : Nat) : Silent (opening n) :=
  forall_mem_opening ⟨rfl, rfl⟩ ⟨rfl, rfl⟩ n

/-- The turns of a frame are those behind its cycles. -/
theorem takesTurns_opening_append (n : Nat) {later : List Call} (h : TakesTurns later) :
    TakesTurns (opening n ++ later) :=
  (silent_opening n).takesTurns.append (silent_opening n).balanced h

theorem takesTurns_present (fault : Option Fault) : TakesTurns [.present fault] := by
  intro n
  match n with
  | 0 => exact .inl rfl
  | n + 1 =>
    rw [List.take_of_length_le (by simp)]
    exact .inr rfl

theorem takesTurns_present_pump (fault fault' : Option Fault) :
    TakesTurns [.present fault, .pump fault'] := by
  intro n
  match n with
  | 0 => exact .inl rfl
  | 1 => exact .inr rfl
  | n + 2 =>
    rw [List.take_of_length_le (by simp)]
    exact .inl rfl

/-- Every frame adds one presentation and one pump. -/
theorem countP_frames (cycles : List Nat) :
    (cycles.flatMap frameCalls).countP Call.isPresent = cycles.length ∧
      (cycles.flatMap frameCalls).countP Call.isPump = cycles.length := by
  induction cycles with
  | nil => exact ⟨rfl, rfl⟩
  | cons n cycles ih =>
    obtain ⟨hpresent, hpump⟩ := (silent_opening n).countP
    rw [List.flatMap_cons, List.countP_append, List.countP_append, ih.1, ih.2, frameCalls,
      List.countP_append, List.countP_append, hpresent, hpump, List.length_cons]
    exact ⟨Nat.add_comm _ _, Nat.add_comm _ _⟩

theorem balanced_frames (cycles : List Nat) : Balanced (cycles.flatMap frameCalls) :=
  (countP_frames cycles).1.trans (countP_frames cycles).2.symm

theorem takesTurns_frames (cycles : List Nat) : TakesTurns (cycles.flatMap frameCalls) := by
  induction cycles with
  | nil => exact silent_nil.takesTurns
  | cons n cycles ih =>
    have hbalanced : Balanced (frameCalls n) := (silent_opening n).balanced.append rfl
    have hturns : TakesTurns (frameCalls n) :=
      takesTurns_opening_append n (takesTurns_present_pump none none)
    rw [List.flatMap_cons]
    exact hturns.append hbalanced ih

theorem LastCalls.takesTurns {ending : Option Ending} {last : List Call}
    (h : LastCalls ending last) : TakesTurns last := by
  cases h with
  | running => exact silent_nil.takesTurns
  | closed | clockOverflow => exact (silent_singleton rfl rfl).takesTurns
  | cycle n fault => exact takesTurns_opening_append n (silent_singleton rfl rfl).takesTurns
  | present n fault => exact takesTurns_opening_append n (takesTurns_present _)
  | pump n fault => exact takesTurns_opening_append n (takesTurns_present_pump _ _)

/-! ### The call that ends a session -/

/-- No call ends the session. -/
def Quiet (calls : List Call) : Prop :=
  ∀ call ∈ calls, call.ending? = none

theorem quiet_append {calls later : List Call} :
    Quiet (calls ++ later) ↔ Quiet calls ∧ Quiet later :=
  List.forall_mem_append

theorem quiet_opening (n : Nat) : Quiet (opening n) :=
  forall_mem_opening (P := fun call => call.ending? = none) rfl rfl n

theorem quiet_frames (cycles : List Nat) : Quiet (cycles.flatMap frameCalls) := by
  intro call hcall
  obtain ⟨n, -, hcall⟩ := List.mem_flatMap.1 hcall
  have hquiet : Quiet (frameCalls n) :=
    quiet_append.2 ⟨quiet_opening n, by simp [Quiet, Call.ending?]⟩
  exact hquiet call hcall

/-- The last one of the last calls ends the session, unless none of them does. -/
theorem LastCalls.final {ending : Option Ending} {last : List Call} (h : LastCalls ending last) :
    Quiet last ∧ (ending = none ∨ ending = some .clockOverflow) ∨
      ∃ quiet call e, last = quiet ++ [call] ∧ Quiet quiet ∧ call.ending? = some e ∧
        ending = some e := by
  cases h with
  | running => exact .inl ⟨nofun, .inl rfl⟩
  | closed => exact .inr ⟨[], _, _, rfl, nofun, rfl, rfl⟩
  | cycle n fault => exact .inr ⟨_, _, _, rfl, quiet_opening n, rfl, rfl⟩
  | present n fault => exact .inr ⟨_, _, _, rfl, quiet_opening n, rfl, rfl⟩
  | pump n fault =>
    have hquiet : Quiet [.present none] := List.forall_mem_singleton.2 rfl
    exact .inr ⟨_ ++ [.present none], _, _, (List.append_assoc _ [_] [_]).symm,
      quiet_append.2 ⟨quiet_opening n, hquiet⟩, rfl, rfl⟩
  | clockOverflow => exact .inl ⟨List.forall_mem_singleton.2 rfl, .inr rfl⟩

/-! ### What the order amounts to -/

/-- What holds of the calls of a session that has completed `frames` frames and has the given
ending. -/
structure Protocol (calls : List Call) (frames : Nat) (ending : Option Ending) : Prop where
  /-- In every frame the frontend is asked first whether it is closed, then the cycles pass, then
  the screen is shown, then the events are handled. -/
  order : FollowsOrder calls frames ending
  /-- Presentations and pumps take turns. -/
  turns : TakesTurns calls
  /-- A session that was closed has shown the screen and handled the events once a frame. -/
  closed : ending = some .closed →
    calls.countP Call.isPresent = frames ∧ calls.countP Call.isPump = frames
  /-- After an answer that ends the session there is no call, and the session has ended so. -/
  stops : ∀ before call after e, calls = before ++ call :: after → call.ending? = some e →
    after = [] ∧ ending = some e
  /-- A session that has ended, other than by its clock, has ended by the answer to its last
  call. -/
  returns : ∀ e, ending = some e → e ≠ .clockOverflow →
    ∃ before call, calls = before ++ [call] ∧ call.ending? = some e

section
variable {calls : List Call} {frames : Nat} {ending : Option Ending}

/-- The last call ends the session, unless none of them does. -/
theorem FollowsOrder.final (h : FollowsOrder calls frames ending) :
    Quiet calls ∧ (ending = none ∨ ending = some .clockOverflow) ∨
      ∃ quiet call e, calls = quiet ++ [call] ∧ Quiet quiet ∧ call.ending? = some e ∧
        ending = some e := by
  obtain ⟨cycles, last, -, hlast, hcalls⟩ := h
  rcases hlast.final with ⟨hquiet, hending⟩ | ⟨quiet, call, e, hsplit, hquiet, hends, hending⟩
  · refine .inl ⟨?_, hending⟩
    rw [hcalls]
    exact quiet_append.2 ⟨quiet_frames cycles, hquiet⟩
  · refine .inr ⟨cycles.flatMap frameCalls ++ quiet, call, e, ?_, ?_, hends, hending⟩
    · rw [hcalls, hsplit, List.append_assoc]
    · exact quiet_append.2 ⟨quiet_frames cycles, hquiet⟩

/-- Behind a call that ends the session there is no other one. -/
theorem FollowsOrder.stops (h : FollowsOrder calls frames ending) {before after : List Call}
    {call : Call} {e : Ending} (hsplit : calls = before ++ call :: after)
    (hends : call.ending? = some e) : after = [] ∧ ending = some e := by
  rcases h.final with ⟨hquiet, -⟩ | ⟨quiet, final, e', hfinal, hquiet, hends', hending⟩
  · have hnone := hquiet call (by simp [hsplit])
    rw [hends] at hnone
    cases hnone
  · have hsame := hsplit.symm.trans hfinal
    rcases List.eq_nil_or_concat after with rfl | ⟨later, latest, rfl⟩
    · obtain ⟨-, hcall⟩ := List.append_inj' hsame rfl
      cases hcall
      exact ⟨rfl, hending.trans (hends'.symm.trans hends)⟩
    · -- Then the call would not be the last one, so it would be one that ends nothing.
      have hshift : before ++ call :: later ++ [latest] = quiet ++ [final] := by
        rw [← hsame, List.append_assoc, List.cons_append, List.concat_eq_append]
      obtain ⟨hbefore, -⟩ := List.append_inj' hshift rfl
      have hnone := hquiet call (by simp [← hbefore])
      rw [hends] at hnone
      cases hnone

/-- What the order amounts to. -/
theorem FollowsOrder.protocol (h : FollowsOrder calls frames ending) :
    Protocol calls frames ending := by
  refine ⟨h, ?_, fun hclosed => ?_, fun _ _ _ _ => h.stops, fun e hending hclock => ?_⟩
  · obtain ⟨cycles, last, -, hlast, rfl⟩ := h
    exact (takesTurns_frames cycles).append (balanced_frames cycles) hlast.takesTurns
  · obtain ⟨cycles, last, rfl, hlast, rfl⟩ := h
    obtain ⟨hpresent, hpump⟩ := countP_frames cycles
    cases hclosed
    cases hlast
    rw [List.countP_append, List.countP_append, hpresent, hpump]
    exact ⟨rfl, rfl⟩
  · rcases h.final with ⟨-, hnone | hoverflow⟩ | ⟨quiet, call, e', hcalls, -, hends, hending'⟩
    · rw [hnone] at hending
      cases hending
    · rw [hoverflow] at hending
      cases hending
      exact absurd rfl hclock
    · exact ⟨quiet, call, hcalls, hends.trans (hending'.symm.trans hending)⟩

end

end Session

end ChipEight
