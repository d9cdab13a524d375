import ChipEight.Duration
import ChipEight.Fault

/-!
# The virtual clock

A `Timestep` turns the time that passed into a whole number of ticks of fixed length and keeps what
is left over for the next time. The length of a tick is a second divided by the rate, rounded down
to whole nanoseconds.

Ticks are drained while *more* than one tick is pending, so a tick that is just complete stays
pending: of a total of `T` nanoseconds, `(T - 1) / tick` ticks are drained. A clock that owes
`2 ^ 32` ticks or more at once has no answer, since it counts them in 32 bits.
-/

namespace ChipEight

/-- A virtual clock. -/
structure Timestep where
  /-- The length of a tick. -/
  tick : Duration
  /-- The time that was not turned into ticks yet. -/
  pending : Duration
  /-- A tick is not empty. -/
  tick_pos : 0 < tick.nanoseconds
deriving DecidableEq, Repr

namespace Timestep

/-- The rate of a clock, in ticks a second, when none is chosen. -/
def defaultRate : Nat := 60

/-- The highest rate. Above it a tick would be shorter than a nanosecond. -/
def maxRate : Nat := 1000000000

/-- A clock at `rate` ticks a second with nothing pending. -/
def ofRate (rate : Nat) : Except Fault Timestep :=
  if h : 1 ≤ rate ∧ rate ≤ maxRate then
    .ok
      { tick := ⟨Duration.perSecond / rate, Nat.lt_of_le_of_lt (Nat.div_le_self _ _) (by decide)⟩
        pending := .zero
        tick_pos := Nat.div_pos h.2 h.1 }
  else
    .error (.invalidConfig s!"clock rate must be between 1 and {maxRate} Hz, got {rate}")

/-- The number of ticks that are drained when `total` nanoseconds are pending. -/
def drained (t : Timestep) (total : Nat) : Nat :=
  (total - 1) / t.tick.nanoseconds

theorem drained_mul_le (t : Timestep) (total : Nat) :
    t.drained total * t.tick.nanoseconds ≤ total := by
  have := Nat.div_mul_le_self (total - 1) t.tick.nanoseconds
  unfold drained
  omega

/-- The number of ticks that are drained when `elapsed` nanoseconds pass. -/
def due (t : Timestep) (elapsed : Nat) : Nat :=
  t.drained (t.pending.nanoseconds + elapsed)

/-- Lets `elapsed` pass. Gives the number of ticks drained and the clock afterwards. The arithmetic
is checked, and it fails in two places: the pending time may exceed the limit of a duration, and the
ticks, which are counted in 32 bits, may be too many for that. -/
def advance? (t : Timestep) (elapsed : Duration) : Option (UInt32 × Timestep) :=
  match t.pending.add? elapsed with
  | none => none
  | some total =>
    let count := t.drained total.nanoseconds
    let rest := total.nanoseconds - count * t.tick.nanoseconds
    -- the counter is stepped once a tick, and its step number `2 ^ 32` overflows
    if count < UInt32.size then
      some (UInt32.ofNat count,
        { t with pending := ⟨rest, Nat.lt_of_le_of_lt (Nat.sub_le _ _) total.lt_limit⟩ })
    else
      none

/-- An advance counts what is due. The time that passed is kept to the nanosecond: it was drained in
whole ticks or is still pending. The length of a tick stays the same. -/
theorem advance?_eq_some {t t' : Timestep} {elapsed : Duration} {count : UInt32}
    (h : t.advance? elapsed = some (count, t')) :
    count.toNat = t.due elapsed.nanoseconds ∧ t'.tick = t.tick ∧
      t.due elapsed.nanoseconds * t.tick.nanoseconds + t'.pending.nanoseconds =
        t.pending.nanoseconds + elapsed.nanoseconds := by
  unfold advance? at h
  split at h
  · cases h
  · next total htotal =>
    rw [Duration.add?_eq_some_iff] at htotal
    dsimp only at h
    split at h
    · next hcount =>
      cases h
      unfold due
      rw [← htotal]
      exact ⟨UInt32.toNat_ofNat_of_lt hcount, rfl,
        Nat.add_sub_of_le (t.drained_mul_le total.nanoseconds)⟩
    · cases h

/-- The two places in which an advance can fail. -/
theorem advance?_eq_none_iff {t : Timestep} {elapsed : Duration} :
    t.advance? elapsed = none ↔
      Duration.limit ≤ t.pending.nanoseconds + elapsed.nanoseconds ∨
        UInt32.size ≤ t.due elapsed.nanoseconds := by
  unfold advance?
  cases hadd : t.pending.add? elapsed with
  | none => simp [Duration.add?_eq_none_iff.1 hadd]
  | some total =>
    -- the sum is a duration, so only the counter is left to overflow
    have htotal := Duration.add?_eq_some_iff.1 hadd
    unfold due
    rw [← htotal]
    simp [Nat.not_le.2 total.lt_limit]

end Timestep

end ChipEight
