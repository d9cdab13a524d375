import ChipEight.Frontend
import ChipEight.Keyboard

/-!
# A frontend for text terminals

The screen is drawn with block characters. A terminal tells which characters were typed but not
when a key is let go, so a typed key counts as held for one frame.
-/

namespace ChipEight

/-- The key of a keyboard with which a character is typed, upper or lower case alike. -/
def KeyCap.ofChar (c : Char) : KeyCap :=
  if c.isDigit then .digit (c.toNat - '0'.toNat)
  else if c.isAlpha then .letter c.toUpper
  else .other

/-- A terminal. -/
structure Terminal where
  /-- The characters typed since the events were handled last, in order. -/
  typed : List Char := []
  /-- The input has ended. -/
  ended : Bool := false
deriving DecidableEq, Repr

namespace Terminal

instance : Frontend Terminal where
  isClosed t := t.ended
  present _ t := (none, t)
  pump keypad t :=
    let keys := t.typed.filterMap fun c => (KeyCap.ofChar c).key?
    { keypad := keys.foldl HexKeypad.press keypad.releaseAll
      frontend := { t with typed := [] }
      fault := none }

/-- The screen in text, one line a row. -/
def picture (s : Screen) : String :=
  let line (row : List Bool) : String :=
    String.ofList (row.map fun lit => if lit then '█' else ' ')
  "\n".intercalate (s.rows.map line)

end Terminal

end ChipEight
