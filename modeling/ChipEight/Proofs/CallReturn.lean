import ChipEight.Proofs.Runs

/-!
# Calls and returns

A call puts the address behind it on the stack and a return takes the latest address off. Nothing
else touches the stack, whether it succeeds, fails or waits, and whatever the program does to its
own memory meanwhile. `Machine.stackCase` says so for one action.

Hence a subroutine gives back the stack as it found it. `Machine.Within address base` holds as long
as the subroutine that is to return to `address` is open on top of the calls `base`. One action
either keeps it or is the matching return (`Machine.Within.act`), and `call_matches_return` follows
by induction on the history.
-/

namespace ChipEight.Machine

variable {m : Machine} {address : UInt16} {base : List UInt16}

/-- What an action can do to the stack. -/
inductive StackCase (m : Machine) (action : Action) : Prop where
  /-- The stack stays as it is. -/
  | kept (hstack : (m.act action).stack = m.stack)
  /-- A call is executed. -/
  | pushed (target : Fin 4096) (haction : action = .cycle) (hexec : m.Executes (.call target))
      (hstack : (m.act action).stack = (m.pc + 2) :: m.stack)
  /-- A return is executed, and goes to the latest address. -/
  | popped (haction : action = .cycle) (hexec : m.Executes .ret) (hsuccess : m.cycle.fault = none)
      (hstack : m.stack = (m.act action).pc :: (m.act action).stack)

/-- The stack after an instruction that took effect. -/
theorem stackCase_of_executed {i : Instruction} (hexec : m.Executes i)
    (hrefusal : m.fetched.refusal i = none)
    (hcycle : m.cycle =
      ⟨(m.fetched.effect i).tickTimers, none, .executing m.pc m.nextWord i :: notices i⟩) :
    StackCase m .cycle := by
  have hmachine : m.act .cycle = (m.fetched.effect i).tickTimers := congrArg (·.machine) hcycle
  have hstack : (m.act .cycle).stack = (m.fetched.effect i).stack := congrArg (·.stack) hmachine
  rw [stack_effect] at hstack
  cases i with
  | call target => exact .pushed target rfl hexec hstack
  | ret =>
    -- a return that was not refused found an address on the stack
    cases hopen : m.stack with
    | nil =>
      have hrefused : m.fetched.refusal .ret = some (.stackUnderflow m.pc) := if_pos hopen
      rw [hrefused] at hrefusal
      cases hrefusal
    | cons latest older =>
      have hpc : (m.act .cycle).pc = m.stack.headD m.fetched.pc := congrArg (·.pc) hmachine
      have holder : (m.act .cycle).stack = m.stack.tail := hstack
      refine .popped rfl hexec (congrArg (·.fault) hcycle) ?_
      rw [hpc, holder, hopen]
      rfl
  | _ => exact .kept hstack

/-- Only calls and returns that succeed touch the stack. -/
theorem stackCase (m : Machine) (action : Action) : StackCase m action := by
  cases action with
  | load program => exact .kept (by rw [act_load])
  | cycle =>
    cases m.cycleCase with
    | paused x hwaiting hcycle =>
      refine .kept ?_
      show m.cycle.machine.stack = m.stack
      rw [hcycle, awaitKey]
      split <;> rfl
    | unfetched hrunning hpc hcycle => exact .kept (congrArg (·.machine.stack) hcycle)
    | unreadable hrunning hpc hword hcycle => exact .kept (congrArg (·.machine.stack) hcycle)
    | refused i fault hexec hrefusal hcycle => exact .kept (congrArg (·.machine.stack) hcycle)
    | executed i hexec hrefusal hcycle => exact stackCase_of_executed hexec hrefusal hcycle
  | key _ | takeKey | toggle _ | clear | present => exact .kept rfl

/-! ### Inside a subroutine -/

/-- The subroutine that is to return to `address` is open, with the calls `base` below it. -/
def Within (m : Machine) (address : UInt16) (base : List UInt16) : Prop :=
  ∃ inner, m.stack = inner ++ address :: base

theorem Within.lt_depth (h : m.Within address base) : base.length < m.depth := by
  obtain ⟨inner, hstack⟩ := h
  rw [depth, hstack, List.length_append, List.length_cons]
  omega

/-- The next cycle is the return to `address` that leaves the calls `base` open. -/
structure Returns (m : Machine) (address : UInt16) (base : List UInt16) : Prop where
  executes : m.Executes .ret
  success : m.cycle.fault = none
  pc : m.cycle.machine.pc = address
  stack : m.cycle.machine.stack = base

/-- An action leads out of a subroutine only by returning from it. -/
theorem Within.act (h : m.Within address base) (action : Action) :
    (m.act action).Within address base ∨ action = .cycle ∧ m.Returns address base := by
  obtain ⟨inner, hinner⟩ := h
  rcases m.stackCase action with hstack | ⟨target, -, -, hstack⟩ | ⟨rfl, hexec, hsuccess, hstack⟩
  · exact .inl ⟨inner, hstack.trans hinner⟩
  · exact .inl ⟨(m.pc + 2) :: inner, by rw [hstack, hinner, List.cons_append]⟩
  · -- what returns is the innermost call: one of `inner`, or the subroutine itself
    rw [hinner] at hstack
    cases inner with
    | nil =>
      obtain ⟨hpc, hbase⟩ := List.cons_eq_cons.1 hstack
      exact .inr ⟨rfl, hexec, hsuccess, hpc.symm, hbase.symm⟩
    | cons latest inner =>
      obtain ⟨-, holder⟩ := List.cons_eq_cons.1 hstack
      exact .inl ⟨inner, holder.symm⟩

/-- As long as the depth never was that of the caller, the subroutine is open. -/
theorem Within.after (h : m.Within address base) {actions : List Action} {n : Nat}
    (hdepth : ∀ k ≤ n, (m.after (actions.take k)).depth ≠ base.length) :
    (m.after (actions.take n)).Within address base := by
  induction n with
  | zero => exact h
  | succ n ih =>
    have hbefore := ih fun k hk => hdepth k (Nat.le_succ_of_le hk)
    have hnow := hdepth (n + 1) (Nat.le_refl _)
    rw [after_take_succ] at hnow ⊢
    cases hlast : actions[n]? with
    | none => exact hbefore
    | some action =>
      rw [hlast] at hnow
      rcases hbefore.act action with hwithin | ⟨rfl, hreturns⟩
      · exact hwithin
      · -- the return would have brought the depth back
        exact absurd (congrArg List.length hreturns.stack) hnow

/-- A call that succeeds opens a subroutine. -/
theorem within_of_call {target : Fin 4096} (hexec : m.Executes (.call target))
    (hsuccess : m.cycle.fault = none) : m.cycle.machine.Within (m.pc + 2) m.stack := by
  have hcycle := cycle_of_executes hexec
  cases hrefusal : m.fetched.refusal (.call target) with
  | some fault =>
    rw [hrefusal] at hcycle
    rw [hcycle] at hsuccess
    cases hsuccess
  | none =>
    rw [hrefusal] at hcycle
    rw [hcycle]
    exact ⟨[], rfl⟩

/-- Calls and returns match. After a call the calls that were open before stay on the stack, with
the address behind the call above them, until the depth is for the first time what it was; then the
last action was a return that leads behind the call and leaves the stack as the call found it. -/
theorem call_matches_return (m : Machine) (target : Fin 4096) (hexec : m.Executes (.call target))
    (hsuccess : m.cycle.fault = none) (actions : List Action) :
    let moment := fun k => m.cycle.machine.after (actions.take k)
    (m.pc + 2).toNat = m.pc.toNat + 2 ∧
      ∀ n, (∀ k ≤ n, (moment k).depth ≠ m.depth) →
        m.depth < (moment n).depth ∧ (∃ inner, (moment n).stack = inner ++ (m.pc + 2) :: m.stack) ∧
          ((moment (n + 1)).depth = m.depth →
            actions[n]? = some .cycle ∧ (moment n).Executes .ret ∧
              (moment n).cycle.fault = none ∧ (moment (n + 1)).pc = m.pc + 2 ∧
              (moment (n + 1)).stack = m.stack) := by
  intro moment
  refine ⟨toNat_pc_fetched hexec.inside, fun n hdepth => ?_⟩
  have hwithin : (moment n).Within (m.pc + 2) m.stack :=
    (within_of_call hexec hsuccess).after hdepth
  refine ⟨hwithin.lt_depth, hwithin, fun hback => ?_⟩
  have hnext : moment (n + 1) = (moment n).after actions[n]?.toList := after_take_succ _ actions n
  rw [hnext] at hback ⊢
  cases haction : actions[n]? with
  | none =>
    -- at the end of the history nothing happens any more, and the depth is still greater
    rw [haction] at hback
    exact absurd hback (hdepth n (Nat.le_refl n))
  | some action =>
    rw [haction] at hback
    rcases hwithin.act action with hstill | ⟨rfl, hreturns⟩
    · exact absurd hback (Nat.ne_of_gt hstill.lt_depth)
    · exact ⟨rfl, hreturns.executes, hreturns.success, hreturns.pc, hreturns.stack⟩

/-- The subroutine at `0x204` calls another one, which waits for a key. The seventh action after the
call is the return to `0x202`. -/
theorem call_matches_return_nested :
    let program : List Instruction :=
      [.call 0x204, .jump 0x202, .call 0x208, .ret, .waitKey 0, .ret]
    let m := (Machine.new {} (Vector.replicate 8 0)).act (.load (program.flatMap Instruction.bytes))
    let actions : List Action :=
      [.cycle, .cycle, .cycle, .key (.press 5), .cycle, .cycle, .cycle, .cycle]
    let moment := fun k => m.cycle.machine.after (actions.take k)
    m.Executes (.call 0x204) ∧ m.cycle.fault = none ∧ (∀ k ≤ 6, (moment k).depth ≠ m.depth) ∧
      (moment 7).depth = m.depth ∧ (moment 6).Executes .ret ∧ (moment 7).pc = m.pc + 2 ∧
      (moment 7).stack = m.stack := by
  intro program m actions moment
  -- the run is evaluated once for all that has to be known of it
  obtain ⟨hinside, hreads, hsuccess, hdepth, hback⟩ :
      m.pc.toNat + 1 < 4096 ∧ Instruction.decode? m.nextWord = some (.call 0x204) ∧
        m.cycle.fault = none ∧ (∀ k ≤ 6, (moment k).depth ≠ m.depth) ∧
        (moment 7).depth = m.depth := by
    decide +kernel
  have hexec : m.Executes (.call 0x204) := ⟨rfl, hinside, hreads⟩
  obtain ⟨-, hmoments⟩ := call_matches_return m 0x204 hexec hsuccess actions
  obtain ⟨-, hreturns, -, hpc, hstack⟩ := (hmoments 6 hdepth).2.2 hback
  exact ⟨hexec, hsuccess, hdepth, hback, hreturns, hpc, hstack⟩

end ChipEight.Machine
