/-!
# The built-in font

Sprites for the sixteen hexadecimal digits. Each is four pixels wide and five high, one byte a row,
with the pixels in the upper half of the byte. A new machine has them at the bottom of its memory,
digit `k` at address `5 * k`.
-/

namespace ChipEight.Font

/-- The number of rows, hence bytes, of one digit. -/
def spriteSize : Nat := 5

/-- The address of the first sprite. -/
def entry : Nat := 0

/-- The sprites of the digits `0` to `F`, one after the other. -/
def sprites : List UInt8 :=
  [0xF0, 0x90, 0x90, 0x90, 0xF0, -- 0
   0x20, 0x60, 0x20, 0x20, 0x70, -- 1
   0xF0, 0x10, 0xF0, 0x80, 0xF0, -- 2
   0xF0, 0x10, 0xF0, 0x10, 0xF0, -- 3
   0x90, 0x90, 0xF0, 0x10, 0x10, -- 4
   0xF0, 0x80, 0xF0, 0x10, 0xF0, -- 5
   0xF0, 0x80, 0xF0, 0x90, 0xF0, -- 6
   0xF0, 0x10, 0x20, 0x40, 0x40, -- 7
   0xF0, 0x90, 0xF0, 0x90, 0xF0, -- 8
   0xF0, 0x90, 0xF0, 0x10, 0xF0, -- 9
   0xF0, 0x90, 0xF0, 0x90, 0x90, -- A
   0xE0, 0x90, 0xE0, 0x90, 0xE0, -- B
   0xF0, 0x80, 0x80, 0x80, 0xF0, -- C
   0xE0, 0x90, 0x90, 0x90, 0xE0, -- D
   0xF0, 0x80, 0xF0, 0x80, 0xF0, -- E
   0xF0, 0x80, 0xF0, 0x80, 0x80] -- F

theorem length_sprites : sprites.length = 80 := rfl

/-- The address of the sprite of the digit `value`. Values above 15 point past the font. -/
def address (value : UInt8) : UInt16 :=
  UInt16.ofNat (entry + value.toNat * spriteSize)

theorem toNat_address (value : UInt8) : (address value).toNat = 5 * value.toNat := by
  have := value.toNat_lt
  simp only [address, entry, spriteSize, UInt16.toNat_ofNat']
  omega

end ChipEight.Font
