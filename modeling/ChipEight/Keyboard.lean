/-!
# Playing on a keyboard

The sixteen keys of the keypad are played on the left part of a keyboard, four rows of four keys:

```text
1 2 3 4        1 2 3 C
Q W E R   as   4 5 6 D
A S D F        7 8 9 E
Z X C V        A 0 B F
```

No other key plays one, the number pad included.
-/

namespace ChipEight

/-- A key of a keyboard. -/
inductive KeyCap where
  /-- A digit of the main block. -/
  | digit (value : Nat)
  /-- A letter, in upper case. -/
  | letter (c : Char)
  /-- Any other key. -/
  | other
deriving DecidableEq, Repr

/-- The number of the key that a key of a keyboard plays, if it plays one. -/
def KeyCap.key? : KeyCap → Option Nat
  | digit 1 => some 0x1
  | digit 2 => some 0x2
  | digit 3 => some 0x3
  | digit 4 => some 0xC
  | letter 'Q' => some 0x4
  | letter 'W' => some 0x5
  | letter 'E' => some 0x6
  | letter 'R' => some 0xD
  | letter 'A' => some 0x7
  | letter 'S' => some 0x8
  | letter 'D' => some 0x9
  | letter 'F' => some 0xE
  | letter 'Z' => some 0xA
  | letter 'X' => some 0x0
  | letter 'C' => some 0xB
  | letter 'V' => some 0xF
  | _ => none

end ChipEight
