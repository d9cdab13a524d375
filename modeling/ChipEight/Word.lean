/-!
# Instruction words

An instruction is one word of sixteen bits, read as four hexadecimal digits. The first digit is the
family of the instruction. The others are taken as an address of three digits, as a register and a
byte, or as two registers and a digit:

```text
family | address (3 digits)      Word.ofAddress
family | x | byte (2 digits)     Word.ofByte
family | x | y | n               Word.ofDigits
```

All three ways to put a word together give back their parts, and every word is put together from
its own parts in all three ways.
-/

namespace ChipEight.Word

/-- The first digit, which names the family of instructions. -/
def family (w : UInt16) : Nat :=
  w.toNat / 0x1000

/-- The second digit, the number of a register. -/
def x (w : UInt16) : Fin 16 :=
  ⟨w.toNat / 0x100 % 0x10, by omega⟩

/-- The third digit, the number of a register. -/
def y (w : UInt16) : Fin 16 :=
  ⟨w.toNat / 0x10 % 0x10, by omega⟩

/-- The last digit. -/
def n (w : UInt16) : Fin 16 :=
  ⟨w.toNat % 0x10, by omega⟩

/-- The last two digits. -/
def byte (w : UInt16) : UInt8 :=
  UInt8.ofNat (w.toNat % 0x100)

/-- The last three digits. -/
def address (w : UInt16) : Fin 4096 :=
  ⟨w.toNat % 0x1000, by omega⟩

/-- The word with the digits `a`, `x`, `y` and `n`, for `a` and `n` below 16. -/
def ofDigits (a : Nat) (x y : Fin 16) (n : Nat) : UInt16 :=
  UInt16.ofNat (0x1000 * a + 0x100 * x + 0x10 * y + n)

/-- The word with the digits `a` and `x` followed by `byte`, for `a` below 16. -/
def ofByte (a : Nat) (x : Fin 16) (byte : UInt8) : UInt16 :=
  UInt16.ofNat (0x1000 * a + 0x100 * x + byte.toNat)

/-- The word with the digit `a` followed by `address`, for `a` below 16. -/
def ofAddress (a : Nat) (address : Fin 4096) : UInt16 :=
  UInt16.ofNat (0x1000 * a + address)

/-! ### Taking apart what was put together -/

theorem family_lt (w : UInt16) : family w < 16 := by
  have := w.toNat_lt
  unfold family
  omega

section
variable {a d : Nat} (r s : Fin 16) (b : UInt8) (t : Fin 4096)

theorem toNat_ofDigits (ha : a < 16) (hd : d < 16) :
    (ofDigits a r s d).toNat = 0x1000 * a + 0x100 * r + 0x10 * s + d := by
  simp only [ofDigits, UInt16.toNat_ofNat']
  omega

theorem toNat_ofByte (ha : a < 16) :
    (ofByte a r b).toNat = 0x1000 * a + 0x100 * r + b.toNat := by
  have := b.toNat_lt
  simp only [ofByte, UInt16.toNat_ofNat']
  omega

theorem toNat_ofAddress (ha : a < 16) : (ofAddress a t).toNat = 0x1000 * a + t := by
  simp only [ofAddress, UInt16.toNat_ofNat']
  omega

@[simp] theorem family_ofDigits (ha : a < 16) (hd : d < 16) : family (ofDigits a r s d) = a := by
  simp only [family, toNat_ofDigits r s ha hd]
  omega

@[simp] theorem x_ofDigits (ha : a < 16) (hd : d < 16) : x (ofDigits a r s d) = r := by
  ext
  simp only [x, toNat_ofDigits r s ha hd]
  omega

@[simp] theorem y_ofDigits (ha : a < 16) (hd : d < 16) : y (ofDigits a r s d) = s := by
  ext
  simp only [y, toNat_ofDigits r s ha hd]
  omega

@[simp] theorem n_ofDigits (ha : a < 16) (hd : d < 16) : n (ofDigits a r s d) = ⟨d, hd⟩ := by
  ext
  simp only [n, toNat_ofDigits r s ha hd]
  omega

@[simp] theorem family_ofByte (ha : a < 16) : family (ofByte a r b) = a := by
  have := b.toNat_lt
  simp only [family, toNat_ofByte r b ha]
  omega

@[simp] theorem x_ofByte (ha : a < 16) : x (ofByte a r b) = r := by
  have := b.toNat_lt
  ext
  simp only [x, toNat_ofByte r b ha]
  omega

@[simp] theorem byte_ofByte (ha : a < 16) : byte (ofByte a r b) = b := by
  have := b.toNat_lt
  apply UInt8.toNat_inj.1
  simp only [byte, toNat_ofByte r b ha, UInt8.toNat_ofNat']
  omega

@[simp] theorem family_ofAddress (ha : a < 16) : family (ofAddress a t) = a := by
  simp only [family, toNat_ofAddress t ha]
  omega

@[simp] theorem address_ofAddress (ha : a < 16) : address (ofAddress a t) = t := by
  ext
  simp only [address, toNat_ofAddress t ha]
  omega

end

/-! ### Putting together what was taken apart -/

theorem ofDigits_parts (w : UInt16) : ofDigits (family w) (x w) (y w) (n w) = w := by
  have := w.toNat_lt
  apply UInt16.toNat_inj.1
  rw [toNat_ofDigits _ _ (family_lt w) (n w).isLt]
  simp only [family, x, y, n]
  omega

theorem ofByte_parts (w : UInt16) : ofByte (family w) (x w) (byte w) = w := by
  have := w.toNat_lt
  apply UInt16.toNat_inj.1
  rw [toNat_ofByte _ _ (family_lt w)]
  simp only [family, x, byte, UInt8.toNat_ofNat']
  omega

theorem ofAddress_parts (w : UInt16) : ofAddress (family w) (address w) = w := by
  have := w.toNat_lt
  apply UInt16.toNat_inj.1
  rw [toNat_ofAddress _ (family_lt w)]
  simp only [family, address]
  omega

end ChipEight.Word
