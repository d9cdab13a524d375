/-!
# The hexadecimal keypad

Sixteen keys, each held or not, and a latch that remembers the key pressed last until someone takes
it. Only a press of a key that was up counts for the latch: a press of a key that is held already
is a repeat. Releases never clear the latch. `HexKeypad.handle` is the effect of any event, and
`HexKeypad.take` takes the latched press.

Key numbers come from outside and may be anything; numbers from 16 on name no key.
-/

namespace ChipEight

/-- Something that happens to the keypad. -/
inductive KeyEvent where
  /-- The key with this number is pressed. -/
  | press (key : Nat)
  /-- The key with this number is let go. -/
  | release (key : Nat)
  /-- All keys are let go. -/
  | releaseAll
deriving DecidableEq, Repr

/-- The number of keys. -/
abbrev HexKeypad.keyCount : Nat := 16

/-- The state of the sixteen keys and of the latch. -/
structure HexKeypad where
  /-- Which keys are held, by key number. -/
  held : Vector Bool HexKeypad.keyCount
  /-- The key pressed last, if it has not been taken since. -/
  latch : Option (Fin HexKeypad.keyCount)
deriving DecidableEq, Repr

namespace HexKeypad

/-- No key held, nothing latched. -/
def idle : HexKeypad := ⟨Vector.replicate keyCount false, none⟩

/-- The key with number `key` exists and is held. -/
def isHeld (k : HexKeypad) (key : Nat) : Bool :=
  if h : key < keyCount then k.held[key] else false

/-- Presses a key. The latch takes it unless the key was held before. -/
def press (k : HexKeypad) (key : Nat) : HexKeypad :=
  if h : key < keyCount then
    { held := k.held.set key true, latch := if k.held[key] then k.latch else some ⟨key, h⟩ }
  else k

/-- Lets a key go. -/
def release (k : HexKeypad) (key : Nat) : HexKeypad :=
  if h : key < keyCount then { k with held := k.held.set key false } else k

/-- Lets all keys go. -/
def releaseAll (k : HexKeypad) : HexKeypad :=
  { k with held := Vector.replicate keyCount false }

/-- Takes the latched press, if there is one, and leaves the latch empty. -/
def take (k : HexKeypad) : Option (Fin keyCount) × HexKeypad :=
  (k.latch, { k with latch := none })

/-- The keypad after an event. -/
def handle (k : HexKeypad) : KeyEvent → HexKeypad
  | .press key => k.press key
  | .release key => k.release key
  | .releaseAll => k.releaseAll

/-! ### What each operation does to the keys and to the latch -/

theorem isHeld_of_le (k : HexKeypad) {key : Nat} (h : 16 ≤ key) : k.isHeld key = false := by
  simp [isHeld, Nat.not_lt.2 h]

@[simp] theorem isHeld_idle (key : Nat) : idle.isHeld key = false := by
  simp [isHeld, idle]

@[simp] theorem latch_idle : idle.latch = none := rfl

theorem isHeld_press (k : HexKeypad) (key j : Nat) :
    (k.press key).isHeld j = if key = j ∧ j < 16 then true else k.isHeld j := by
  by_cases hj : j < 16
  · by_cases hk : key < 16
    · simp [press, isHeld, hk, hj, Vector.getElem_set]
    · have : key ≠ j := by omega
      simp [press, isHeld, hk, hj, this]
  · simp [isHeld, hj]

theorem latch_press (k : HexKeypad) (key : Nat) :
    (k.press key).latch =
      if h : key < 16 then if k.isHeld key then k.latch else some ⟨key, h⟩ else k.latch := by
  by_cases hk : key < 16 <;> simp [press, isHeld, hk]

theorem isHeld_release (k : HexKeypad) (key j : Nat) :
    (k.release key).isHeld j = if key = j then false else k.isHeld j := by
  by_cases hj : j < 16
  · by_cases hk : key < 16
    · simp [release, isHeld, hk, hj, Vector.getElem_set]
    · have : key ≠ j := by omega
      simp [release, isHeld, hk, hj, this]
  · simp [isHeld, hj]

@[simp] theorem latch_release (k : HexKeypad) (key : Nat) : (k.release key).latch = k.latch := by
  by_cases hk : key < 16 <;> simp [release, hk]

@[simp] theorem isHeld_releaseAll (k : HexKeypad) (j : Nat) : k.releaseAll.isHeld j = false := by
  simp [releaseAll, isHeld]

@[simp] theorem latch_releaseAll (k : HexKeypad) : k.releaseAll.latch = k.latch := rfl

@[simp] theorem fst_take (k : HexKeypad) : k.take.1 = k.latch := rfl

@[simp] theorem isHeld_take (k : HexKeypad) (j : Nat) : k.take.2.isHeld j = k.isHeld j := rfl

@[simp] theorem latch_take (k : HexKeypad) : k.take.2.latch = none := rfl

end HexKeypad

end ChipEight
