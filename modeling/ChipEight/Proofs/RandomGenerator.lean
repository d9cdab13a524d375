import ChipEight.Proofs.RandomBytes

/-!
# A generator of the random bytes

`ByteStream` finds a byte of the stream by its number. A generator has no such numbers: it makes
four blocks at a time, hands out their words one after another, and makes the next four blocks when
all words were handed out. The blocks are numbered by a counter of 64 bits.

`Generator` is such a generator, and `Generator.Yields` relates it to the stream that it is about to
give. Each of its bytes is the next byte of that stream (`Generator.Yields.next`), within a buffer
and across refills, also where the counter starts again from zero. So the instructions that take
random bytes get the bytes of the generator in their order (`Machine.receives_generated`).
-/

namespace ChipEight

namespace ByteStream

/-- A generator that makes blocks ahead and hands out their words. -/
structure Generator where
  /-- The key of the stream. -/
  key : Vector UInt32 8
  /-- The number of the next block to make. -/
  counter : UInt64
  /-- The words of the blocks that were made last. -/
  buffer : Vector UInt32 64
  /-- The number of words that were handed out of the buffer. -/
  index : Nat
deriving DecidableEq, Repr

namespace Generator

/-- A generator that has made no block yet. -/
def ofKey (key : Vector UInt32 8) : Generator where
  key
  counter := 0
  buffer := .replicate 64 0
  index := 64

/-- The words of four blocks in a row. -/
def fourBlocks (key : Vector UInt32 8) (counter : UInt64) : Vector UInt32 64 :=
  Vector.ofFn fun i =>
    (block key (counter + UInt64.ofNat (i / 16)).toNat).get ⟨i % 16, Nat.mod_lt _ (by decide)⟩

/-- Makes the next four blocks. -/
def refill (g : Generator) : Generator where
  key := g.key
  counter := g.counter + 4
  buffer := fourBlocks g.key g.counter
  index := 0

/-- Hands out the low byte of the next word of the buffer. -/
def take (g : Generator) : UInt8 × Generator :=
  ((g.buffer.toList.getD g.index 0).toUInt8, { g with index := g.index + 1 })

/-- The next byte, and the generator after it. -/
def next (g : Generator) : UInt8 × Generator :=
  if g.index < 64 then g.take else g.refill.take

/-- The generator after `k` bytes. -/
def after (g : Generator) (k : Nat) : Generator :=
  Nat.repeat (·.next.2) k g

end Generator

/-! ### Blocks and their numbers -/

/-- Only the lower 64 bits of its number count for a block. -/
theorem block_toNat (key : Vector UInt32 8) (n : Nat) :
    block key (UInt64.ofNat n).toNat = block key n := by
  have htoNat : (UInt64.ofNat n).toNat = n % 2 ^ 64 := UInt64.toNat_ofNat'
  -- the number stands in the block as two words, which are the halves of these 64 bits
  have hlow : UInt32.ofNat (UInt64.ofNat n).toNat = UInt32.ofNat n := by
    apply UInt32.toNat_inj.1
    rw [htoNat, UInt32.toNat_ofNat', UInt32.toNat_ofNat']
    omega
  have hhigh : UInt32.ofNat ((UInt64.ofNat n).toNat >>> 32) = UInt32.ofNat (n >>> 32) := by
    apply UInt32.toNat_inj.1
    rw [htoNat, UInt32.toNat_ofNat', UInt32.toNat_ofNat', Nat.shiftRight_eq_div_pow,
      Nat.shiftRight_eq_div_pow]
    omega
  have hinitial : initialBlock key (UInt64.ofNat n).toNat = initialBlock key n := by
    simp only [initialBlock, hlow, hhigh]
  rw [block, hinitial, block]

/-- The bytes of a block have sixteen numbers in a row. -/
theorem byte_add (key : Vector UInt32 8) (number i : Nat) :
    byte key (16 * number + i) =
      ((block key (number + i / 16)).get ⟨i % 16, Nat.mod_lt _ (by decide)⟩).toUInt8 := by
  have hnumber : (16 * number + i) / 16 = number + i / 16 := Nat.mul_add_div (by decide) number i
  have hword : (16 * number + i) % 16 = i % 16 := Nat.mul_add_mod 16 number i
  unfold byte
  simp only [hnumber, hword]
  rfl

namespace Generator

variable {s : ByteStream} {g : Generator}

/-- The word with the number `i` of a new buffer. -/
theorem getD_fourBlocks (key : Vector UInt32 8) (number : Nat) {i : Nat} (h : i < 64) :
    ((fourBlocks key (UInt64.ofNat number)).toList.getD i 0).toUInt8 =
      byte key (16 * number + i) := by
  have hsum : UInt64.ofNat number + UInt64.ofNat (i / 16) = UInt64.ofNat (number + i / 16) :=
    (UInt64.ofNat_add _ _).symm
  rw [byte_add, ← block_toNat, ← hsum]
  simp [fourBlocks, h]

/-- The generator is about to give what is left of the stream: what its buffer still holds, and then
the block with the number of its counter. -/
structure Yields (s : ByteStream) (g : Generator) : Prop where
  /-- The stream is the one of the key. -/
  key : g.key = s.key
  /-- No more words were handed out than the buffer holds. -/
  index : g.index ≤ 64
  /-- Behind the words that are left comes the first byte of the next block to make. -/
  counter : ∃ number, g.counter = UInt64.ofNat number ∧
    s.position + (64 - g.index) = 16 * number
  /-- The words that are left hold the next bytes of the stream. -/
  buffer : ∀ i, g.index ≤ i → i < 64 →
    (g.buffer.toList.getD i 0).toUInt8 = byte s.key (s.position + (i - g.index))

theorem yields_ofKey (key : Vector UInt32 8) : Yields (.ofKey key) (ofKey key) where
  key := rfl
  index := Nat.le_refl 64
  counter := ⟨0, rfl, rfl⟩
  buffer _ hle hlt := absurd hlt (Nat.not_lt.2 hle)

/-- Handing out a word that the buffer holds. -/
theorem Yields.take (h : Yields s g) (hindex : g.index < 64) :
    g.take.1 = s.next.1 ∧ Yields s.next.2 g.take.2 := by
  refine ⟨?_, h.key, hindex, ?_, fun i hle hlt => ?_⟩
  · have hbyte := h.buffer g.index (Nat.le_refl _) hindex
    rwa [Nat.sub_self] at hbyte
  · obtain ⟨number, hcounter, hposition⟩ := h.counter
    refine ⟨number, hcounter, ?_⟩
    rw [position_next, ← hposition]
    dsimp only [Generator.take]
    omega
  · -- what is left of the buffer stays where it is, and the stream is one byte further
    have hlt' : g.index < i := hle
    have hsame : s.position + 1 + (i - (g.index + 1)) = s.position + (i - g.index) := by omega
    rw [key_next, position_next, Generator.take]
    dsimp only
    rw [h.buffer i (Nat.le_of_lt hlt') hlt, hsame]

/-- Making new blocks when the buffer is used up. -/
theorem Yields.refill (h : Yields s g) (hindex : g.index = 64) : Yields s g.refill := by
  -- nothing is left of the buffer, so the stream goes on with the first byte of the next block
  obtain ⟨number, hcounter, hposition⟩ := h.counter
  have hposition : s.position = 16 * number := by omega
  refine ⟨h.key, Nat.zero_le _, ⟨number + 4, ?_, ?_⟩, fun i _ hlt => ?_⟩
  · rw [UInt64.ofNat_add, ← hcounter]
    rfl
  · rw [hposition]
    dsimp only [Generator.refill]
    omega
  · rw [Generator.refill, h.key, hcounter, getD_fourBlocks _ _ hlt, hposition, Nat.sub_zero]

/-- Each byte is the next one of the stream. -/
theorem Yields.next (h : Yields s g) : g.next.1 = s.next.1 ∧ Yields s.next.2 g.next.2 := by
  unfold Generator.next
  split
  · next hindex => exact h.take hindex
  · next hindex =>
    have hindex : g.index = 64 := Nat.le_antisymm h.index (Nat.not_lt.1 hindex)
    exact (h.refill hindex).take (Nat.zero_lt_succ 63)

/-- Whatever the number of bytes taken, the generator goes on with the stream. -/
theorem Yields.after (h : Yields s g) (k : Nat) :
    Yields { s with position := s.position + k } (g.after k) := by
  induction k with
  | zero => exact h
  | succ k ih => exact ih.next.2

/-- The byte that a generator gives after `k` others is the one with the number `k`. -/
theorem fst_next_after (key : Vector UInt32 8) (k : Nat) :
    ((ofKey key).after k).next.1 = byte key k := by
  rw [((yields_ofKey key).after k).next.1, fst_next]
  exact congrArg (byte key) (Nat.zero_add k)

end Generator

end ByteStream

/-- The random cycles of a run with a seed get the bytes of the generator in their order, whatever
happens between them. -/
theorem Machine.receives_generated (config : Config) (entropy : Vector UInt32 8) (seed : UInt64)
    (actions : List Action) {k : Nat} {s : Machine} :
    let m := Machine.new { config with seed := some seed } entropy
    (randomCycles (m.successes actions))[k]? = some s →
      s.Receives ((ByteStream.Generator.ofKey (ByteStream.keyOfSeed seed)).after k).next.1 := by
  intro m h
  rw [ByteStream.Generator.fst_next_after]
  exact receives_of_randomCycles config entropy seed actions h

end ChipEight
