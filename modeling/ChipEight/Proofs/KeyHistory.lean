import ChipEight.HexKeypad
import Mathlib.Data.List.Induction

/-!
# The history of a keypad

What a sequence of key events amounts to, told by the events alone and without the keypad: which
keys are held after them, and which press came last. A press is *rising* if it names one of the
sixteen keys and that key is not held at the moment; only rising presses count.

* `isHeld_handleAll`: the keypad holds the keys that its history says are held.
* `latch_handleAll`: the latch has the last rising press, as long as nobody takes it.
-/

namespace ChipEight

namespace KeyEvent

/-- The keys that are held after an event, given those that were held before. -/
def holdAfter (held : Nat → Bool) : KeyEvent → Nat → Bool
  | .press key, j => held j || decide (j = key ∧ key < 16)
  | .release key, j => held j && decide (j ≠ key)
  | .releaseAll, _ => false

/-- The key of a rising press. -/
def rising? (held : Nat → Bool) : KeyEvent → Option (Fin 16)
  | .press key => if h : key < 16 ∧ held key = false then some ⟨key, h.1⟩ else none
  | .release _ | .releaseAll => none

end KeyEvent

/-- The keys that are held after all events, given those that were held before. -/
def heldAfter (held : Nat → Bool) (events : List KeyEvent) : Nat → Bool :=
  events.foldl KeyEvent.holdAfter held

/-- The key of the last rising press among the events, given the keys that were held before. -/
def lastRising? (held : Nat → Bool) : List KeyEvent → Option (Fin 16)
  | [] => none
  | event :: events =>
    (lastRising? (event.holdAfter held) events).or (event.rising? held)

section
variable (held : Nat → Bool) (events : List KeyEvent) (event : KeyEvent)

@[simp] theorem heldAfter_nil : heldAfter held [] = held := rfl

theorem heldAfter_concat :
    heldAfter held (events ++ [event]) = event.holdAfter (heldAfter held events) := by
  rw [heldAfter, List.foldl_append]
  rfl

/-- A later press counts before all earlier ones. -/
theorem lastRising?_concat :
    lastRising? held (events ++ [event]) =
      (event.rising? (heldAfter held events)).or (lastRising? held events) := by
  induction events generalizing held with
  | nil => simp [lastRising?]
  | cons first events ih =>
    rw [List.cons_append, lastRising?, ih, lastRising?, Option.or_assoc]
    rfl

end

namespace HexKeypad

/-- The keypad after all events. -/
def handleAll (k : HexKeypad) (events : List KeyEvent) : HexKeypad :=
  events.foldl handle k

theorem isHeld_handle (k : HexKeypad) (event : KeyEvent) :
    (k.handle event).isHeld = event.holdAfter k.isHeld := by
  funext j
  cases event with
  | press key =>
    show (k.press key).isHeld j = _
    rw [isHeld_press, KeyEvent.holdAfter]
    by_cases h : key = j ∧ j < 16
    · obtain ⟨rfl, hkey⟩ := h
      simp [hkey]
    · have hother : ¬ (j = key ∧ key < 16) := fun h' => h ⟨h'.1.symm, h'.1 ▸ h'.2⟩
      simp [h, hother]
  | release key =>
    show (k.release key).isHeld j = _
    rw [isHeld_release, KeyEvent.holdAfter]
    by_cases h : key = j
    · simp [h]
    · simp [h, Ne.symm h]
  | releaseAll => exact isHeld_releaseAll k j

theorem latch_handle (k : HexKeypad) (event : KeyEvent) :
    (k.handle event).latch = (event.rising? k.isHeld).or k.latch := by
  cases event with
  | press key =>
    show (k.press key).latch = _
    rw [latch_press, KeyEvent.rising?]
    by_cases hkey : key < 16
    · -- A press of a key that is held is a repeat and leaves the latch alone.
      by_cases hheld : k.isHeld key = true
      · simp [hkey, hheld]
      · simp [hkey, hheld]
    · simp [hkey]
  | release key => exact latch_release k key
  | releaseAll => exact latch_releaseAll k

/-- The keypad holds the keys that its history says are held. -/
theorem isHeld_handleAll (k : HexKeypad) (events : List KeyEvent) :
    (k.handleAll events).isHeld = heldAfter k.isHeld events := by
  induction events using List.reverseRecOn with
  | nil => rfl
  | append_singleton events event ih =>
    rw [heldAfter_concat, ← ih, ← isHeld_handle, handleAll, List.foldl_append]
    rfl

/-- The latch has the last rising press, and what it had before if there was none. -/
theorem latch_handleAll (k : HexKeypad) (events : List KeyEvent) :
    (k.handleAll events).latch = (lastRising? k.isHeld events).or k.latch := by
  -- The induction is from the end, where the last event decides.
  induction events using List.reverseRecOn with
  | nil => rfl
  | append_singleton events event ih =>
    rw [lastRising?_concat, Option.or_assoc, ← ih, ← isHeld_handleAll, ← latch_handle, handleAll,
      List.foldl_append]
    rfl

end HexKeypad

end ChipEight
