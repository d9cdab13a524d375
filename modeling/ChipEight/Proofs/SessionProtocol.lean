import ChipEight.Frontend.Scripted
import ChipEight.Proofs.CallOrder
import ChipEight.Proofs.Clock
import ChipEight.Proofs.Runs

/-!
# The protocol of a session

Every session makes its calls in the order of `Session.Protocol`, whatever its frontend answers and
however the time passes. Its log begins with the line of its start and, once it has ended, ends
with the line of its end.

* `Session.Progress.advanceCase` lists the ways in which a session goes on: by a completed frame, or
  to its end.
* `Session.Orderly` holds of a session at every moment, and is kept by going on.
* `Session.run_follows_protocol` is the statement for all sessions and clocks. The calls are those
  that lead from the first state of the machine and the frontend to the last one, and the requests
  among them are those that a frontend has written down.
-/

namespace ChipEight

/-! ### Log lines -/

/-- The line tells of the start or the end of a session. -/
def LogLine.IsMilestone : LogLine → Prop
  | .sessionStarted _ | .sessionClosed | .sessionAborted _ => True
  | _ => False

namespace Machine

/-- A machine logs nothing about the session that it is in. -/
theorem not_isMilestone_of_mem_cycle {m : Machine} {line : LogLine} (h : line ∈ m.cycle.log) :
    ¬ line.IsMilestone := by
  cases m.cycleCase with
  | paused x hwaiting hcycle =>
    rw [hcycle, awaitKey] at h
    split at h
    · cases h
    · rw [List.mem_singleton.1 h]
      exact id
  | unfetched hrunning hpc hcycle =>
    rw [hcycle] at h
    cases h
  | unreadable hrunning hpc hword hcycle =>
    rw [hcycle] at h
    cases h
  | refused i fault hexec hrefusal hcycle =>
    rw [hcycle] at h
    rw [List.mem_singleton.1 h]
    exact id
  | executed i hexec hrefusal hcycle =>
    rw [hcycle] at h
    rcases List.mem_cons.1 h with rfl | h
    · exact id
    · cases i with
      | waitKey x =>
        rw [List.mem_singleton.1 h]
        exact id
      | _ => cases h

theorem not_isMilestone_of_mem_cycles {m : Machine} {n : Nat} {line : LogLine}
    (h : line ∈ (m.cycles n).log) : ¬ line.IsMilestone := by
  induction n generalizing m with
  | zero => simp [Stretch.start] at h
  | succ n ih =>
    cases hfault : m.cycle.fault with
    | some fault =>
      rw [cycles_succ_of_fault hfault] at h
      simp only [Stretch.extend, Stretch.start, Array.empty_append, List.mem_toArray] at h
      exact not_isMilestone_of_mem_cycle h
    | none =>
      rw [cycles_succ_of_success hfault] at h
      simp only [Stretch.append, Stretch.extend, Stretch.start, Array.empty_append,
        Array.mem_append, List.mem_toArray] at h
      rcases h with h | h
      · exact not_isMilestone_of_mem_cycle h
      · exact ih h

end Machine

namespace Session

/-- What is logged at the end of a session. -/
def closingLines : Option Ending → List LogLine
  | some .closed => [.sessionClosed]
  | some (.aborted fault) => [.sessionAborted fault]
  | some .clockOverflow | none => []

variable {σ : Type} [Frontend σ]

/-! ### Going on -/

/-- The ways in which a session that has not ended goes on from `p` to `p'`. -/
inductive Progress.AdvanceCase (p : Progress σ) (elapsed : Duration) (p' : Progress σ) : Prop where
  /-- A frame is completed. -/
  | completed (n : Nat) (lines : List LogLine) (hframes : p'.frames = p.frames + 1)
      (hending : p'.ending = p.ending)
      (hmakes : Makes p.session.place (frameCalls n) p'.session.place)
      (hlog : p'.log.toList = p.log.toList ++ lines) (hlines : ∀ line ∈ lines, ¬ line.IsMilestone)
  /-- The session ends. -/
  | ended (e : Ending) (last : List Call) (lines : List LogLine) (hframes : p'.frames = p.frames)
      (hending : p'.ending = some e) (hlast : LastCalls (some e) last)
      (hmakes : Makes p.session.place last p'.session.place)
      (hlog : p'.log.toList = p.log.toList ++ lines ++ closingLines (some e))
      (hlines : ∀ line ∈ lines, ¬ line.IsMilestone)
      (hclock : e = .clockOverflow → p'.session.timestep.advance? elapsed = none)

/-- The calls of a frame up to its last cycle, of which none failed. -/
theorem makes_opening {s : Session σ} {n : Nat} (hasked : Frontend.isClosed s.frontend = false)
    (hsuccess : (s.machine.cycles n).fault = none) :
    Makes s.place (opening (s.machine.cycles n).ran)
      ((s.machine.cycles n).machine, s.frontend) := by
  have hcycles : callsOf (s.machine.cycles n) = cycleCalls (s.machine.cycles n).ran := by
    rw [callsOf, hsuccess, Option.map_none, Option.toList_none, List.append_nil]
  have hmakes := makes_cycles s.machine s.frontend n
  rw [hcycles] at hmakes
  exact .cons (.isClosed hasked) hmakes

/-- A session that has not ended goes on in one of the two ways. -/
theorem Progress.advanceCase (p : Progress σ) (elapsed : Duration) :
    p.AdvanceCase elapsed (p.advance elapsed) := by
  unfold advance
  cases hclosed : Frontend.isClosed p.session.frontend with
  | true =>
    exact .ended .closed [.isClosed true] [] rfl rfl .closed (.cons (.isClosed hclosed) (.nil _))
      (by simp [closingLines]) (by simp) (by simp)
  | false =>
    have hlines : ∀ n, ∀ line ∈ (p.session.machine.cycles n).log.toList, ¬ line.IsMilestone :=
      fun n line hline => Machine.not_isMilestone_of_mem_cycles (Array.mem_toList_iff.1 hline)
    -- the frontend is not closed, so a frame follows, which goes in one of its ways
    cases p.session.frameCase elapsed with
    | clockOverflow hadvance hframe =>
      simp only [hframe]
      exact .ended .clockOverflow [.isClosed false] [] rfl rfl .clockOverflow
        (.cons (.isClosed hclosed) (.nil _)) (by simp [closingLines]) (by simp) fun _ => hadvance
    | cycle ticks timestep fault hadvance hfault hframe =>
      simp only [hframe]
      refine .ended (.aborted fault) _ _ rfl rfl
        (.cycle (p.session.machine.cycles ticks.toNat).ran fault) ?_
        (by simp [closingLines]) (hlines ticks.toNat) (by simp)
      have hmakes := makes_cycles p.session.machine p.session.frontend ticks.toNat
      rw [callsOf, hfault] at hmakes
      exact .cons (.isClosed hclosed) hmakes
    | present ticks timestep fault shown hadvance hsuccess hshown hframe =>
      simp only [hframe]
      exact .ended (.aborted fault) _ _ rfl rfl
        (.present (p.session.machine.cycles ticks.toNat).ran fault)
        ((makes_opening hclosed hsuccess).append (.cons (.presentFailed hshown) (.nil _)))
        (by simp [closingLines]) (hlines ticks.toNat) (by simp)
    | pump ticks timestep shown pumped hadvance hsuccess hshown hpumped hframe =>
      have hmakes := (makes_opening hclosed hsuccess).append
        (.cons (.presented hshown) (.cons (.pump hpumped) (.nil _)))
      simp only [hframe]
      cases hfault : pumped.fault with
      | some fault =>
        rw [hfault] at hmakes
        exact .ended (.aborted fault) _ _ rfl rfl
          (.pump (p.session.machine.cycles ticks.toNat).ran fault) hmakes
          (by simp [closingLines]) (hlines ticks.toNat) (by simp)
      | none =>
        rw [hfault] at hmakes
        exact .completed (p.session.machine.cycles ticks.toNat).ran _ rfl rfl hmakes
          (by simp) (hlines ticks.toNat)

/-! ### At every moment -/

/-- At every moment of the session `s` that reads its times from `clock`: the calls that have led to
it are in order, and the log begins with the start and ends with the end. -/
structure Orderly (s : Session σ) (clock : Nat → Duration) (p : Progress σ) : Prop where
  /-- The calls are in order. -/
  calls : ∃ calls, Makes s.place calls p.session.place ∧ FollowsOrder calls p.frames p.ending
  /-- Between the line of the start and the one of the end only the machine logs something. -/
  log : ∃ lines, p.log.toList =
      .sessionStarted s.timestep.tick :: lines ++ closingLines p.ending ∧
    ∀ line ∈ lines, ¬ line.IsMilestone
  /-- The clock ends a session only when it cannot take up the time that passed. -/
  clockOverflow : p.ending = some .clockOverflow →
    p.session.timestep.advance? (clock p.frames) = none

section
variable {s : Session σ} {clock : Nat → Duration} {p : Progress σ}

/-- Going on keeps a session orderly. -/
theorem Orderly.advance (h : Orderly s clock p) (hrunning : p.ending = none) :
    Orderly s clock (p.advance (clock p.frames)) := by
  obtain ⟨⟨calls, hmakes, horder⟩, ⟨lines, hlog, hlines⟩, -⟩ := h
  -- nothing was logged of an end yet, and no last calls were made
  rw [hrunning] at horder
  rw [hrunning, closingLines, List.append_nil] at hlog
  cases p.advanceCase (clock p.frames) with
  | completed n lines' hframes hending hmakes' hlog' hlines' =>
    have hnone : (p.advance (clock p.frames)).ending = none := hending.trans hrunning
    refine ⟨⟨_, hmakes.append hmakes', ?_⟩, ⟨lines ++ lines', ?_, ?_⟩, ?_⟩
    · rw [hframes, hnone]
      exact horder.frame n
    · rw [hlog', hlog, hnone, closingLines, List.append_nil]
      rfl
    · exact List.forall_mem_append.2 ⟨hlines, hlines'⟩
    · rw [hnone]
      nofun
  | ended e last lines' hframes hending hlast hmakes' hlog' hlines' hclock =>
    refine ⟨⟨_, hmakes.append hmakes', ?_⟩, ⟨lines ++ lines', ?_, ?_⟩, fun hoverflow => ?_⟩
    · rw [hframes, hending]
      exact horder.last hlast
    · rw [hlog', hlog, hending]
      simp
    · exact List.forall_mem_append.2 ⟨hlines, hlines'⟩
    · rw [hending] at hoverflow
      rw [hframes]
      exact hclock (Option.some.inj hoverflow)

theorem Orderly.progress_run (h : Orderly s clock p) (n : Nat) :
    Orderly s clock (Progress.run clock n p) := by
  induction n generalizing p with
  | zero => exact h
  | succ n ih =>
    rw [Progress.run]
    split
    · exact h
    · next hrunning => exact ih (h.advance (Option.not_isSome_iff_eq_none.1 hrunning))

theorem orderly_start (s : Session σ) (clock : Nat → Duration) : Orderly s clock (.start s) where
  calls := ⟨[], .nil _, [], [], rfl, .running, rfl⟩
  log := ⟨[], rfl, nofun⟩
  clockOverflow := nofun

/-- A session is orderly at every moment. -/
theorem orderly_run (s : Session σ) (clock : Nat → Duration) (n : Nat) :
    Orderly s clock (s.run clock n) :=
  (s.orderly_start clock).progress_run n

/-- A session that has ended does not go on. -/
theorem progress_run_of_ended (hended : p.ending.isSome) (n : Nat) :
    Progress.run clock n p = p := by
  cases n with
  | zero => rfl
  | succ n => rw [Progress.run, if_pos hended]

theorem progress_run_add (n later : Nat) :
    Progress.run clock (n + later) p = Progress.run clock later (Progress.run clock n p) := by
  induction n generalizing p with
  | zero => rw [Nat.zero_add, Progress.run]
  | succ n ih =>
    rw [Nat.add_right_comm, Progress.run, Progress.run]
    split
    · next hended => rw [progress_run_of_ended hended]
    · exact ih

/-- As long as a session has not ended, it completes one frame after the other. -/
theorem frames_progress_run {n : Nat} (hrunning : (Progress.run clock n p).ending = none) :
    (Progress.run clock n p).frames = p.frames + n := by
  induction n generalizing p with
  | zero => rfl
  | succ n ih =>
    rw [Progress.run] at hrunning ⊢
    split at hrunning
    · next hended =>
      rw [hrunning] at hended
      cases hended
    · next hnone =>
      rw [if_neg hnone]
      cases p.advanceCase (clock p.frames) with
      | completed n' lines hframes =>
        rw [ih hrunning, hframes, Nat.add_right_comm, Nat.add_assoc]
      | ended e last lines hframes hending =>
        -- then the session would not have gone on
        have hended : (p.advance (clock p.frames)).ending.isSome := by rw [hending]; rfl
        rw [progress_run_of_ended hended, hending] at hrunning
        cases hrunning

end

/-- Every session follows the protocol in all the frames of its run. Its calls lead from its first
state to its last one, and those among them that are requests are the ones that a frontend has
written down, to which the session is the same. It goes on as long as no answer ends it, and then
not any more; and it logs its start first, its end last and neither of them between. -/
theorem run_follows_protocol (s : Session σ) (clock : Nat → Duration) (n : Nat) :
    let p := s.run clock n
    let r := s.recorded.run clock n
    r.unrecorded = p ∧
      (∃ calls, Makes s.place calls p.session.place ∧
        r.session.frontend.requests = calls.filter Call.isRequest ∧
        Protocol calls p.frames p.ending) ∧
      (p.ending = none → p.frames = n) ∧
      (p.ending ≠ none → ∀ later, s.run clock (n + later) = p) ∧
      (p.ending = some .clockOverflow →
        let pending := p.session.timestep.pending.nanoseconds
        let elapsed := (clock p.frames).nanoseconds
        Duration.limit ≤ pending + elapsed ∨ UInt32.size ≤ p.session.timestep.due elapsed) ∧
      (∃ lines, p.log.toList =
          .sessionStarted s.timestep.tick :: lines ++ closingLines p.ending ∧
        ∀ line ∈ lines, ¬ line.IsMilestone) ∧
      (closingLines (some .closed)).map LogLine.text = ["session closed"] ∧
      ∀ fault : Fault, (closingLines (some (.aborted fault))).map LogLine.text =
        ["session aborted: " ++ fault.message] := by
  intro p r
  have hsame : r.unrecorded = p := s.run_unrecorded clock n
  have horderly : Orderly s clock p := s.orderly_run clock n
  refine ⟨hsame, ?_, fun hrunning => ?_, fun hended later => ?_,
    fun hclock => Timestep.advance?_eq_none_iff.1 (horderly.clockOverflow hclock), horderly.log,
    rfl, fun _ => rfl⟩
  · -- the calls of the session that writes down its requests are those of the session itself
    obtain ⟨calls, hmakes, horder⟩ := (s.recorded.orderly_run clock n).calls
    obtain ⟨hmakes', hrequests⟩ := hmakes.forget
    rw [← hsame]
    exact ⟨calls, hmakes', hrequests, horder.protocol⟩
  · exact (frames_progress_run hrunning).trans (Nat.zero_add n)
  · exact (progress_run_add n later).trans
      (progress_run_of_ended (Option.isSome_iff_ne_none.2 hended) later)

/-- Sessions that are closed after a frame, whose second cycle fails, whose frontend cannot show the
screen or cannot handle the events, over five frames of a tick and a half each. -/
theorem run_follows_protocol_endings :
    let start := Machine.new {} (Vector.replicate 8 0)
    let loop := start.act (.load (Instruction.jump 0x200).bytes)
    let broken := start.act (.load (Instruction.addByte 0 1).bytes)
    let clock : Nat → Duration := fun _ => ⟨1500, by decide⟩
    let session (machine : Machine) (frontend : Scripted) : Session Scripted :=
      ⟨machine, frontend, ⟨⟨1000, by decide⟩, .zero, by decide⟩⟩
    let follows (s : Session Scripted) (requests : List Call) (frames : Nat) (ending : Ending) :=
      (s.recorded.run clock 5).session.frontend.requests = requests ∧
      ∃ calls, Makes s.place calls (s.run clock 5).session.place ∧
        calls.filter Call.isRequest = requests ∧ Protocol calls frames (some ending)
    follows (session loop { closeAfter := some 1 }) [.present none, .pump none] 1 .closed ∧
      follows (session broken {}) [.present none, .pump none] 1
        (.aborted (.unknownOpcode 0 0x202)) ∧
      follows (session loop { presentFailure := some (2, "torn") })
        [.present none, .pump none, .present (some (.platform "torn"))] 1
        (.aborted (.platform "torn")) ∧
      follows (session loop { pumpFailure := some (1, "lost") })
        [.present none, .pump (some (.platform "lost"))] 0 (.aborted (.platform "lost")) := by
  intro start loop broken clock session follows
  -- how each session ends is computed; that its calls follow the protocol is the theorem
  have hfollows : ∀ s requests frames ending,
      ((s.recorded.run clock 5).session.frontend.requests, (s.run clock 5).frames,
        (s.run clock 5).ending) = (requests, frames, some ending) →
      follows s requests frames ending := by
    intro s requests frames ending hends
    simp only [Prod.mk.injEq] at hends
    obtain ⟨hrequests, hframes, hending⟩ := hends
    obtain ⟨-, ⟨calls, hmakes, hfilter, hprotocol⟩, -⟩ := run_follows_protocol s clock 5
    rw [hframes, hending] at hprotocol
    exact ⟨hrequests, calls, hmakes, hfilter.symm.trans hrequests, hprotocol⟩
  refine ⟨hfollows _ _ _ _ ?_, hfollows _ _ _ _ ?_, hfollows _ _ _ _ ?_, hfollows _ _ _ _ ?_⟩ <;>
    decide +kernel

end Session

end ChipEight
