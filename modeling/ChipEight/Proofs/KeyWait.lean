import ChipEight.Proofs.KeyHistory
import ChipEight.Proofs.Runs

/-!
# Waiting for a key

From the cycle that executes `Instruction.waitKey` on, a machine is paused, while cycles and key
events go on in any order. `keyWait_delivers_last_press` tells how the pause ends: at the first
cycle that comes after a rising press, and with the key of the last one. Everything before the wait
is forgotten, because the wait starts by emptying the latch, and a key that is still held since then
makes no rising press until it is released.

The invariant of the pause is `after_unanswered`: as long as no cycle had a press to take, the
keypad is just the one that handled all events, and the cycles only let the timers count down.
-/

namespace ChipEight

/-! ### Histories of cycles and key events -/

namespace Action

/-- A cycle passes or the keypad is used; nobody else takes the latched press. -/
def IsCycleOrKey : Action → Prop
  | .cycle | .key _ => True
  | .load _ | .takeKey | .toggle _ | .clear | .present => False

/-- The key event of an action, if it is one. -/
def keyEvent? : Action → Option KeyEvent
  | .key event => some event
  | _ => none

end Action

/-- The key events of a history. -/
def keyEvents (history : List Action) : List KeyEvent :=
  history.filterMap Action.keyEvent?

theorem keyEvents_concat_cycle (history : List Action) :
    keyEvents (history ++ [.cycle]) = keyEvents history := by
  rw [keyEvents, List.filterMap_append]
  exact List.append_nil _

theorem keyEvents_concat_key (history : List Action) (event : KeyEvent) :
    keyEvents (history ++ [.key event]) = keyEvents history ++ [event] := by
  rw [keyEvents, List.filterMap_append]
  rfl

/-- No cycle of the history comes after a rising press. -/
def Unanswered (held : Nat → Bool) (history : List Action) : Prop :=
  ∀ before after, history = before ++ .cycle :: after → lastRising? held (keyEvents before) = none

theorem Unanswered.of_concat {held : Nat → Bool} {history : List Action} {action : Action}
    (h : Unanswered held (history ++ [action])) : Unanswered held history := by
  intro before after hhistory
  apply h before (after ++ [action])
  rw [hhistory, List.append_assoc, List.cons_append]

theorem unanswered_nil (held : Nat → Bool) : Unanswered held [] := by
  intro before after hnil
  simp at hnil

theorem Unanswered.concat {held : Nat → Bool} {history : List Action} {action : Action}
    (h : Unanswered held history)
    (haction : action = .cycle → lastRising? held (keyEvents history) = none) :
    Unanswered held (history ++ [action]) := by
  intro before after hsplit
  -- The cycle of the split is the last action or lies before it.
  rcases List.eq_nil_or_concat after with rfl | ⟨after, last, rfl⟩
  · obtain ⟨rfl, hlast⟩ := List.append_inj' hsplit rfl
    exact haction (List.singleton_inj.1 hlast)
  · rw [List.concat_eq_append, ← List.cons_append, ← List.append_assoc] at hsplit
    exact h before after (List.append_inj' hsplit rfl).1

theorem Unanswered.lastRising?_eq_none {held : Nat → Bool} {history : List Action}
    (h : Unanswered held (history ++ [.cycle])) :
    lastRising? held (keyEvents history) = none :=
  h history [] rfl

/-- A history has no cycle after a rising press, or it has a first one. -/
theorem unanswered_or_answered (held : Nat → Bool) (history : List Action) :
    Unanswered held history ∨
      ∃ before after key, history = before ++ .cycle :: after ∧ Unanswered held before ∧
        lastRising? held (keyEvents before) = some key := by
  induction history using List.reverseRecOn with
  | nil => exact Or.inl (unanswered_nil held)
  | append_singleton history action ih =>
    rcases ih with hunanswered | ⟨before, after, key, hsplit, hbefore, hkey⟩
    · by_cases haction : action = .cycle
      · subst haction
        cases hpress : lastRising? held (keyEvents history) with
        | none => exact Or.inl (hunanswered.concat fun _ => hpress)
        | some key => exact Or.inr ⟨history, [], key, rfl, hunanswered, hpress⟩
      · exact Or.inl (hunanswered.concat fun h => absurd h haction)
    · -- The first cycle after a rising press stays the first, whatever comes later.
      right
      refine ⟨before, after ++ [action], key, ?_, hbefore, hkey⟩
      rw [hsplit, List.append_assoc, List.cons_append]

/-! ### Timers -/

/-- A timer after `n` ticks. -/
def countDownBy (n : Nat) (timer : UInt8) : UInt8 :=
  UInt8.ofNat (timer.toNat - n)

@[simp] theorem toNat_countDownBy (n : Nat) (timer : UInt8) :
    (countDownBy n timer).toNat = timer.toNat - n := by
  have hlt := timer.toNat_lt
  rw [countDownBy, UInt8.toNat_ofNat']
  omega

@[simp] theorem countDownBy_zero (timer : UInt8) : countDownBy 0 timer = timer := by
  apply UInt8.toNat_inj.1
  rw [toNat_countDownBy, Nat.sub_zero]

theorem countDown_countDownBy (n : Nat) (timer : UInt8) :
    countDown (countDownBy n timer) = countDownBy (n + 1) timer := by
  apply UInt8.toNat_inj.1
  rw [toNat_countDown, toNat_countDownBy, toNat_countDownBy, Nat.sub_sub]

namespace Machine

/-! ### The pause -/

/-- A paused machine after a history in which no cycle had a press to take. -/
def waited (m : Machine) (history : List Action) : Machine :=
  { m with
    keypad := m.keypad.handleAll (keyEvents history)
    delay := countDownBy (history.count .cycle) m.delay
    sound := countDownBy (history.count .cycle) m.sound }

theorem latch_waited {m : Machine} (hlatch : m.keypad.latch = none) (history : List Action) :
    (m.waited history).keypad.latch = lastRising? m.keypad.isHeld (keyEvents history) := by
  show (m.keypad.handleAll (keyEvents history)).latch = _
  rw [HexKeypad.latch_handleAll, hlatch, Option.or_none]

/-- A cycle without a press to take lets the timers count down and does nothing else. -/
theorem cycle_of_latch_eq_none {m : Machine} {x : Fin 16} (hwaiting : m.waiting = some x)
    (hlatch : m.keypad.latch = none) : m.cycle = ⟨m.tickTimers, none, []⟩ := by
  have htake : m.keypad.take = (none, { m.keypad with latch := none }) := by
    rw [HexKeypad.take, hlatch]
  rw [cycle, hwaiting]
  dsimp only
  rw [awaitKey, htake]

/-- A cycle with a press to take puts its key into the register and ends the pause. -/
theorem cycle_of_latch_eq_some {m : Machine} {x key : Fin 16} (hwaiting : m.waiting = some x)
    (hlatch : m.keypad.latch = some key) :
    m.cycle =
      ⟨({ m with keypad := m.keypad.take.2, waiting := none }.setV x (UInt8.ofNat key)).tickTimers,
        none, [.resumed key x]⟩ := by
  have htake : m.keypad.take = (some key, m.keypad.take.2) := by
    rw [HexKeypad.take, hlatch]
  rw [cycle, hwaiting]
  dsimp only
  rw [awaitKey, htake]

/-- As long as no cycle comes after a rising press, the machine stays paused: the keypad handles its
events and the timers count down. -/
theorem after_unanswered {m : Machine} {x : Fin 16} (hwaiting : m.waiting = some x)
    (hlatch : m.keypad.latch = none) {history : List Action}
    (hhistory : ∀ action ∈ history, action.IsCycleOrKey)
    (hunanswered : Unanswered m.keypad.isHeld history) :
    m.after history = m.waited history := by
  -- The induction takes the latest action off, since the cycles before it decide what it meets.
  induction history using List.reverseRecOn with
  | nil => simp [waited, keyEvents, HexKeypad.handleAll]
  | append_singleton history action ih =>
    have hbefore : ∀ action ∈ history, action.IsCycleOrKey :=
      fun a ha => hhistory a (List.mem_append_left _ ha)
    have hlast : action.IsCycleOrKey := hhistory action (by simp)
    rw [after_append, ih hbefore hunanswered.of_concat, after_cons, after_nil]
    cases action with
    | cycle =>
      -- No cycle comes after a rising press, so this one finds the latch empty.
      have hnone : (m.waited history).keypad.latch = none := by
        rw [latch_waited hlatch, hunanswered.lastRising?_eq_none]
      have hcycle := cycle_of_latch_eq_none (m := m.waited history) hwaiting hnone
      show (m.waited history).cycle.machine = _
      rw [hcycle]
      simp [waited, tickTimers, keyEvents_concat_cycle, countDown_countDownBy]
    | key event =>
      show { m.waited history with keypad := (m.waited history).keypad.handle event } = _
      simp [waited, keyEvents_concat_key, HexKeypad.handleAll]
    | load _ | takeKey | toggle _ | clear | present => exact hlast.elim

/-! ### The end of the pause -/

/-- No instruction was executed: the parts of a machine that only instructions change agree, the
registers apart. -/
structure Standstill (m m' : Machine) : Prop where
  config : m'.config = m.config
  memory : m'.memory = m.memory
  pc : m'.pc = m.pc
  fetchedAt : m'.fetchedAt = m.fetchedAt
  index : m'.index = m.index
  stack : m'.stack = m.stack
  screen : m'.screen = m.screen
  random : m'.random = m.random

/-- `m'` is the machine `m`, which had fetched the instruction to wait for a key into `x`, after a
number of cycles that brought no key. -/
structure StillWaits (m : Machine) (x : Fin 16) (cycles : Nat) (m' : Machine) : Prop where
  waiting : m'.waiting = some x
  registers : m'.registers = m.registers
  delay : m'.delay.toNat = m.delay.toNat - cycles
  sound : m'.sound.toNat = m.sound.toNat - cycles
  standstill : Standstill m m'

/-- `m'` is the machine `m`, which had fetched the instruction to wait for a key into `x`, after a
number of cycles the last of which brought `key`. -/
structure Resumes (m : Machine) (x key : Fin 16) (cycles : Nat) (m' : Machine) : Prop where
  waiting : m'.waiting = none
  key : m'.v x = UInt8.ofNat key
  others : ∀ y, y ≠ x → m'.v y = m.v y
  delay : m'.delay.toNat = m.delay.toNat - cycles
  sound : m'.sound.toNat = m.sound.toNat - cycles
  standstill : Standstill m m'

/-- A cycle that finds no press goes on waiting. -/
theorem StillWaits.cycle {m s : Machine} {x : Fin 16} {n : Nat} (h : StillWaits m x n s)
    (hlatch : s.keypad.latch = none) : StillWaits m x (n + 1) s.cycle.machine := by
  have hstandstill := h.standstill
  rw [cycle_of_latch_eq_none h.waiting hlatch]
  refine ⟨h.waiting, h.registers, ?_, ?_, ?_⟩
  · show (countDown s.delay).toNat = _
    rw [toNat_countDown, h.delay, Nat.sub_sub]
  · show (countDown s.sound).toNat = _
    rw [toNat_countDown, h.sound, Nat.sub_sub]
  · exact ⟨hstandstill.config, hstandstill.memory, hstandstill.pc, hstandstill.fetchedAt,
      hstandstill.index, hstandstill.stack, hstandstill.screen, hstandstill.random⟩

/-- A cycle that finds a press ends the wait with its key. -/
theorem StillWaits.resumes {m s : Machine} {x key : Fin 16} {n : Nat} (h : StillWaits m x n s)
    (hlatch : s.keypad.latch = some key) : Resumes m x key (n + 1) s.cycle.machine := by
  have hstandstill := h.standstill
  rw [cycle_of_latch_eq_some h.waiting hlatch]
  refine ⟨rfl, ?_, fun y hy => ?_, ?_, ?_, ?_⟩
  · exact Registers.get_set_self s.registers x (UInt8.ofNat key)
  · show (s.registers.set x (UInt8.ofNat key)).get y = m.registers.get y
    rw [Registers.get_set_of_ne _ _ hy, h.registers]
  · show (countDown s.delay).toNat = _
    rw [toNat_countDown, h.delay, Nat.sub_sub]
  · show (countDown s.sound).toNat = _
    rw [toNat_countDown, h.sound, Nat.sub_sub]
  · exact ⟨hstandstill.config, hstandstill.memory, hstandstill.pc, hstandstill.fetchedAt,
      hstandstill.index, hstandstill.stack, hstandstill.screen, hstandstill.random⟩

/-- A cycle of a paused machine succeeds, wherever `pc` is, and executes nothing. -/
theorem cycle_of_waiting {m : Machine} {x : Fin 16} (hwaiting : m.waiting = some x) :
    m.cycle.fault = none ∧ ∀ address word i, .executing address word i ∉ m.cycle.log := by
  cases hlatch : m.keypad.latch with
  | none =>
    rw [cycle_of_latch_eq_none hwaiting hlatch]
    simp
  | some key =>
    rw [cycle_of_latch_eq_some hwaiting hlatch]
    simp

/-- The cycle that starts the wait empties the latch and keeps the keys that are held. -/
theorem cycle_of_executes_waitKey {m : Machine} {x : Fin 16} (h : m.Executes (.waitKey x)) :
    m.cycle =
      ⟨({ m.fetched with keypad := m.keypad.take.2, waiting := some x }).tickTimers, none,
        [.executing m.pc m.nextWord (.waitKey x), .waiting x]⟩ :=
  cycle_of_executes h

/-- A machine that has started to wait still waits after a history that is unanswered, and the latch
has the last rising press since then. -/
theorem stillWaits_after {m : Machine} {x : Fin 16} (hexec : m.Executes (.waitKey x))
    {history : List Action} (hhistory : ∀ action ∈ history, action.IsCycleOrKey)
    (hunanswered : Unanswered m.keypad.isHeld history) :
    StillWaits m.fetched x (history.count .cycle + 1) (m.cycle.machine.after history) ∧
      (m.cycle.machine.after history).keypad.latch =
        lastRising? m.keypad.isHeld (keyEvents history) := by
  have hstart := cycle_of_executes_waitKey hexec
  have hwaiting : m.cycle.machine.waiting = some x := by rw [hstart]; rfl
  have hlatch : m.cycle.machine.keypad.latch = none := by rw [hstart]; rfl
  have hheld : m.cycle.machine.keypad.isHeld = m.keypad.isHeld := by rw [hstart]; rfl
  -- The cycle that starts the wait counts, too.
  have htimer : ∀ timer : UInt8, (countDownBy (history.count .cycle) (countDown timer)).toNat =
      timer.toNat - (history.count .cycle + 1) := by
    intro timer
    rw [toNat_countDownBy, toNat_countDown, Nat.sub_sub, Nat.add_comm]
  rw [after_unanswered hwaiting hlatch hhistory (hheld ▸ hunanswered)]
  refine ⟨⟨hwaiting, ?_, ?_, ?_, ?_⟩, ?_⟩
  · rw [hstart]
    rfl
  · rw [hstart]
    exact htimer m.delay
  · rw [hstart]
    exact htimer m.sound
  · rw [hstart]
    exact ⟨rfl, rfl, rfl, rfl, rfl, rfl, rfl, rfl⟩
  · rw [latch_waited hlatch, hheld]

/-- After `waitKey`, the machine stays paused until the first cycle that comes after a rising press,
and that cycle delivers the last one. All cycles succeed and none executes an instruction. -/
theorem keyWait_delivers_last_press (m : Machine) (x : Fin 16) (hexec : m.Executes (.waitKey x))
    (history : List Action) (hhistory : ∀ action ∈ history, action.IsCycleOrKey) :
    let held := m.keypad.isHeld
    m.cycle.fault = none ∧
      (∀ before after, history = before ++ after → Unanswered held before →
        let s := m.cycle.machine.after before
        let cycles := before.count .cycle
        StillWaits m.fetched x (cycles + 1) s ∧
          s.cycle.fault = none ∧ (∀ address word i, .executing address word i ∉ s.cycle.log) ∧
          match lastRising? held (keyEvents before) with
          | none => StillWaits m.fetched x (cycles + 2) s.cycle.machine
          | some key => Resumes m.fetched x key (cycles + 2) s.cycle.machine) ∧
      (Unanswered held history ∨
        ∃ before after key, history = before ++ .cycle :: after ∧ Unanswered held before ∧
          lastRising? held (keyEvents before) = some key) := by
  refine ⟨?_, ?_, unanswered_or_answered m.keypad.isHeld history⟩
  · rw [cycle_of_executes_waitKey hexec]
  · intro before after hsplit hunanswered s cycles
    have hbefore : ∀ action ∈ before, action.IsCycleOrKey := by
      intro action haction
      exact hhistory action (hsplit ▸ List.mem_append_left after haction)
    -- The next cycle goes on waiting or resumes, depending on what the latch has by then.
    obtain ⟨hwaits, hlatch⟩ := stillWaits_after hexec hbefore hunanswered
    obtain ⟨hfault, hlog⟩ := cycle_of_waiting hwaits.waiting
    refine ⟨hwaits, hfault, hlog, ?_⟩
    cases hpress : lastRising? m.keypad.isHeld (keyEvents before) with
    | none => exact hwaits.cycle (hlatch.trans hpress)
    | some key => exact hwaits.resumes (hlatch.trans hpress)

/-- Key 5 is held since before the wait and pressed again to no effect; then the keys 7 and 2 are
pressed and released, and the next cycle delivers 2. -/
theorem keyWait_delivers_last_press_released :
    let m : Machine :=
      { (Machine.new {} (Vector.replicate 8 0)).act (.load (Instruction.waitKey 3).bytes) with
        keypad := HexKeypad.idle.press 5 }
    let history : List Action :=
      [.cycle, .key (.press 5), .cycle, .key (.press 7), .key (.release 7), .key (.press 2),
        .key (.release 2)]
    m.Executes (.waitKey 3) ∧ (∀ action ∈ history, action.IsCycleOrKey) ∧
      Resumes m.fetched 3 2 4 (m.cycle.machine.after history).cycle.machine := by
  intro m history
  have hloaded := executes_load {} (Vector.replicate 8 0) (.waitKey 3)
  have hexec : m.Executes (.waitKey 3) := ⟨hloaded.running, hloaded.inside, hloaded.reads⟩
  have hhistory : ∀ action ∈ history, action.IsCycleOrKey := by simp [history, Action.IsCycleOrKey]
  have hkey : ∀ {event : KeyEvent} {p : Prop}, Action.key event = .cycle → p := fun h => nomatch h
  -- The second cycle comes after a press of key 5, but key 5 was held.
  have hcycles : Unanswered m.keypad.isHeld [.cycle, .key (.press 5), .cycle] :=
    (((unanswered_nil _).concat fun _ => rfl).concat hkey).concat fun _ => rfl
  have hunanswered : Unanswered m.keypad.isHeld history :=
    (((hcycles.concat hkey).concat hkey).concat hkey).concat hkey
  obtain ⟨-, hwhile, -⟩ := keyWait_delivers_last_press m 3 hexec history hhistory
  have hresumes := (hwhile history [] (List.append_nil history).symm hunanswered).2.2.2
  exact ⟨hexec, hhistory, hresumes⟩

end Machine

end ChipEight
