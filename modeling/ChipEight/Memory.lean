/-!
# Memory

The 4096 bytes that a program shares with its data and with the built-in font.

Every operation is described through `Memory.read`, which gives `0` outside memory, so that reads
need no proof of their address. Who must not go outside asks `Memory.Spans` first.

* `Memory.slice start n` is the list of `n` bytes from `start` on.
* `Memory.write start bytes` puts a list of bytes into memory, the first one at `start`.
-/

namespace ChipEight

/-- The number of bytes in memory. -/
abbrev Memory.size : Nat := 4096

/-- The memory of the machine: 4096 bytes, addressed from zero. -/
structure Memory where
  /-- The bytes by address. -/
  bytes : Vector UInt8 Memory.size
deriving DecidableEq, Repr

namespace Memory

/-- The address at which programs are loaded and start to run. -/
def programStart : Nat := 0x200

/-- The number of bytes from `programStart` to the end of memory, hence the longest program. -/
def programCapacity : Nat := size - programStart

/-- The `n` bytes from `start` on do not reach past the end of memory. A start behind the end is
past it even for no bytes at all. -/
def Spans (start n : Nat) : Prop :=
  start + n ≤ size

instance (start n : Nat) : Decidable (Spans start n) :=
  inferInstanceAs (Decidable (_ ≤ _))

theorem spans_iff {start n : Nat} : Spans start n ↔ start + n ≤ 4096 := Iff.rfl

/-- Memory that holds zero everywhere. -/
def zeroed : Memory := ⟨Vector.replicate size 0⟩

/-- The byte at `address`, or `0` outside memory. -/
def read (m : Memory) (address : Nat) : UInt8 :=
  if h : address < size then m.bytes[address] else 0

/-- The `n` bytes from `start` on, in address order. -/
def slice (m : Memory) (start n : Nat) : List UInt8 :=
  (List.range n).map fun k => m.read (start + k)

/-- The two bytes at `address` as one word, the first byte being the upper half. -/
def word (m : Memory) (address : Nat) : UInt16 :=
  UInt16.ofNat ((m.read address).toNat * 256 + (m.read (address + 1)).toNat)

/-- Replaces the byte at `address`; nothing happens outside memory. -/
def set (m : Memory) (address : Nat) (value : UInt8) : Memory :=
  ⟨m.bytes.setIfInBounds address value⟩

/-- Puts `bytes` into memory, the first one at `start`. -/
def write (m : Memory) (start : Nat) : List UInt8 → Memory
  | [] => m
  | byte :: rest => (m.set start byte).write (start + 1) rest

/-! ### What each operation does to the bytes -/

theorem read_of_le (m : Memory) {a : Nat} (h : 4096 ≤ a) : m.read a = 0 := by
  simp [read, Nat.not_lt.2 h]

/-- Two memories are equal when every address inside holds the same byte. -/
@[ext] theorem ext_read {m m' : Memory} (h : ∀ a, a < 4096 → m.read a = m'.read a) : m = m' := by
  obtain ⟨v⟩ := m
  obtain ⟨v'⟩ := m'
  rw [mk.injEq]
  ext1 i hi
  simpa [read, hi] using h i hi

@[simp] theorem read_zeroed (a : Nat) : zeroed.read a = 0 := by
  simp [read, zeroed]

theorem read_set (m : Memory) (b a : Nat) (value : UInt8) :
    (m.set b value).read a = if b = a ∧ b < 4096 then value else m.read a := by
  by_cases ha : a < 4096
  · by_cases hb : b = a
    · subst hb; simp [read, set, ha]
    · simp [read, set, ha, hb]
  · have hb : ¬(b = a ∧ b < 4096) := by omega
    simp [read_of_le _ (Nat.not_lt.1 ha), hb]

@[simp] theorem length_slice (m : Memory) (start n : Nat) : (m.slice start n).length = n := by
  simp [slice]

@[simp] theorem getElem_slice (m : Memory) (start n k : Nat) (h : k < (m.slice start n).length) :
    (m.slice start n)[k] = m.read (start + k) := by
  simp [slice]

/-- A written byte is read back where it went; every other address keeps its byte. -/
theorem read_write (m : Memory) (start a : Nat) (bytes : List UInt8) :
    (m.write start bytes).read a =
      if start ≤ a ∧ a < 4096 then bytes.getD (a - start) (m.read a) else m.read a := by
  induction bytes generalizing m start with
  | nil => simp [write]
  | cons byte rest ih =>
    rw [write, ih, read_set]
    by_cases h : a = start
    · subst h
      by_cases ha : a < 4096 <;> simp [ha, Nat.not_le.2 (Nat.lt_succ_self a)]
    · by_cases hle : start ≤ a
      · have hle' : start + 1 ≤ a := by omega
        have hsub : a - start = (a - (start + 1)) + 1 := by omega
        simp [hle, hle', hsub, Ne.symm h]
      · have hle' : ¬ start + 1 ≤ a := by omega
        simp [hle, hle', Ne.symm h]

/-- Bytes outside the block that is written stay as they are. -/
theorem read_write_outside (m : Memory) {start a : Nat} {bytes : List UInt8}
    (h : a < start ∨ start + bytes.length ≤ a) : (m.write start bytes).read a = m.read a := by
  rw [read_write]
  split
  · next hin =>
    have hbehind : bytes.length ≤ a - start := by omega
    rw [List.getD_eq_getElem?_getD, List.getElem?_eq_none hbehind, Option.getD_none]
  · rfl

/-- Bytes that fit are read back as they were written. -/
theorem slice_write (m : Memory) {start : Nat} {bytes : List UInt8}
    (h : Spans start bytes.length) : (m.write start bytes).slice start bytes.length = bytes := by
  have h := spans_iff.1 h
  refine List.ext_getElem (by simp) fun k hk hk' => ?_
  have : start + k < 4096 := by omega
  simp [read_write, this, hk']

end Memory

end ChipEight
