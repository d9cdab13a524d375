/-!
# Random bytes

A stream of random bytes that is determined by its key: the ChaCha stream of twelve rounds with a
64-bit block counter and no nonce. Each block gives sixteen words; each byte of the stream is the
low byte of one word, so the upper bytes of a word are never used.

* `ByteStream.byte key k` is the byte number `k`, for any `k`, without the ones before it.
* `ByteStream.next` takes the bytes one by one. A generator that makes its blocks ahead, as needed,
  gives the same bytes (`ByteStream.Generator` in the module `Proofs.RandomGenerator`).
* `ByteStream.keyOfSeed` spreads a seed of 64 bits over a key.
-/

namespace ChipEight

/-- A stream of random bytes: the key that determines it and how many bytes were taken. -/
structure ByteStream where
  /-- The key, eight words. -/
  key : Vector UInt32 8
  /-- The number of bytes taken. -/
  position : Nat
deriving DecidableEq, Repr

namespace ByteStream

/-- The sixteen words that ChaCha stirs. -/
abbrev Block := Vector UInt32 16

/-- The word rotated left by `n` bits, for `n` from 1 to 31. -/
def rotateLeft (w n : UInt32) : UInt32 :=
  (w <<< n) ||| (w >>> (32 - n))

/-- Stirs the words at four places of a block. -/
def quarterRound (b : Block) (i j k l : Fin 16) : Block :=
  -- The words at `i`, `j`, `k` and `l` become `p`, `q`, `r` and `s`.
  let p := b[i] + b[j]
  let s := rotateLeft (b[l] ^^^ p) 16
  let r := b[k] + s
  let q := rotateLeft (b[j] ^^^ r) 12
  let p := p + q
  let s := rotateLeft (s ^^^ p) 8
  let r := r + s
  let q := rotateLeft (q ^^^ r) 7
  (((b.set i p).set j q).set k r).set l s

/-- A round along the columns of the block, then one along its diagonals. -/
def doubleRound (b : Block) : Block :=
  let b := quarterRound b 0 4 8 12
  let b := quarterRound b 1 5 9 13
  let b := quarterRound b 2 6 10 14
  let b := quarterRound b 3 7 11 15
  let b := quarterRound b 0 5 10 15
  let b := quarterRound b 1 6 11 12
  let b := quarterRound b 2 7 8 13
  quarterRound b 3 4 9 14

/-- The block before it is stirred: four constants, the key, the number of the block as two words
with the lower one first, and two words of zero. -/
def initialBlock (key : Vector UInt32 8) (number : Nat) : Block :=
  #v[0x61707865, 0x3320646e, 0x79622d32, 0x6b206574,
    key[0], key[1], key[2], key[3], key[4], key[5], key[6], key[7],
    UInt32.ofNat number, UInt32.ofNat (number >>> 32), 0, 0]

/-- The block with the given number: the initial block, stirred for twelve rounds and added to
itself as it was before. -/
def block (key : Vector UInt32 8) (number : Nat) : Block :=
  let initial := initialBlock key number
  Vector.zipWith (· + ·) (Nat.repeat doubleRound 6 initial) initial

/-- The byte number `k` of the stream of `key`. -/
def byte (key : Vector UInt32 8) (k : Nat) : UInt8 :=
  (block key (k / 16))[k % 16].toUInt8

/-- The next byte, and the stream after it. -/
def next (s : ByteStream) : UInt8 × ByteStream :=
  (byte s.key s.position, { s with position := s.position + 1 })

/-- A stream from its start. -/
def ofKey (key : Vector UInt32 8) : ByteStream := ⟨key, 0⟩

/-- The step of the generator that spreads a seed. -/
def advanceSeed (state : UInt64) : UInt64 :=
  state * 6364136223846793005 + 11634580027462260723

/-- The word that the generator that spreads a seed gives in a state: some of its upper bits,
rotated right by the number in the uppermost five. -/
def seedWord (state : UInt64) : UInt32 :=
  let word := (((state >>> 18) ^^^ state) >>> 27).toUInt32
  let rotation := (state >>> 59).toUInt32
  (word >>> rotation) ||| (word <<< ((32 - rotation) % 32))

/-- The key of a seed: the words of the eight states after it. -/
def keyOfSeed (seed : UInt64) : Vector UInt32 8 :=
  Vector.ofFn fun i => seedWord (Nat.repeat advanceSeed (i.val + 1) seed)

@[simp] theorem fst_next (s : ByteStream) : s.next.1 = byte s.key s.position := rfl

@[simp] theorem key_next (s : ByteStream) : s.next.2.key = s.key := rfl

@[simp] theorem position_next (s : ByteStream) : s.next.2.position = s.position + 1 := rfl

end ByteStream

end ChipEight
