/-!
# Durations

Lengths of time in whole nanoseconds, up to just below 2 ^ 64 seconds. Adding two of them may
exceed that limit.

`Duration.text` writes a duration in the largest of the units `s`, `ms`, `µs` and `ns` that it
fills once, with all decimals that matter: `1s`, `16.666666ms`, `33.333µs`, `1ns`.
-/

namespace ChipEight

/-- The number of nanoseconds in a second. -/
def Duration.perSecond : Nat := 1000000000

/-- The number of nanoseconds in the first length of time that is too long for a duration. -/
def Duration.limit : Nat := UInt64.size * Duration.perSecond

/-- A length of time that fits 64 bits of seconds. -/
structure Duration where
  /-- The length in nanoseconds. -/
  nanoseconds : Nat
  /-- The whole seconds fit 64 bits. -/
  lt_limit : nanoseconds < Duration.limit
deriving DecidableEq, Repr

namespace Duration

@[ext] theorem ext {d e : Duration} (h : d.nanoseconds = e.nanoseconds) : d = e := by
  cases d
  cases e
  cases h
  rfl

/-- The duration of `n` nanoseconds, if there is one. -/
def ofNanoseconds? (n : Nat) : Option Duration :=
  if h : n < limit then some ⟨n, h⟩ else none

/-- No time at all. -/
def zero : Duration := ⟨0, by decide⟩

/-- The sum of two durations, if it is within the limit. -/
def add? (d e : Duration) : Option Duration :=
  ofNanoseconds? (d.nanoseconds + e.nanoseconds)

/-- The whole seconds. -/
def seconds (d : Duration) : Nat :=
  d.nanoseconds / perSecond

/-- The nanoseconds beyond the whole seconds. -/
def subsecond (d : Duration) : Nat :=
  d.nanoseconds % perSecond

theorem ofNanoseconds?_eq_none_iff {n : Nat} : ofNanoseconds? n = none ↔ limit ≤ n := by
  unfold ofNanoseconds?
  split <;> simp_all

theorem ofNanoseconds?_eq_some_iff {n : Nat} {d : Duration} :
    ofNanoseconds? n = some d ↔ d.nanoseconds = n := by
  unfold ofNanoseconds?
  split
  · simp [Duration.ext_iff, eq_comm]
  · have := d.lt_limit
    simp; omega

theorem add?_eq_none_iff {d e : Duration} :
    d.add? e = none ↔ limit ≤ d.nanoseconds + e.nanoseconds :=
  ofNanoseconds?_eq_none_iff

theorem add?_eq_some_iff {d e f : Duration} :
    d.add? e = some f ↔ f.nanoseconds = d.nanoseconds + e.nanoseconds :=
  ofNanoseconds?_eq_some_iff

@[simp] theorem nanoseconds_zero : zero.nanoseconds = 0 := rfl

/-- The decimals of a fraction `part` of `10 ^ places`, with the mark before them and without the
zeros at their end; nothing for a whole number. -/
def decimals (places part : Nat) : String :=
  let padded := (Nat.toDigits 10 part).leftpad places '0'
  let digits := (padded.reverse.dropWhile (· == '0')).reverse
  if digits.isEmpty then "" else "." ++ String.ofList digits

/-- The number `n / 10 ^ places` with all decimals that matter. -/
def scaled (places n : Nat) : String :=
  toString (n / Nat.pow 10 places) ++ decimals places (n % Nat.pow 10 places)

/-- The duration in the largest unit that it fills once, and in nanoseconds if it fills none. -/
def text (d : Duration) : String :=
  if perSecond ≤ d.nanoseconds then scaled 9 d.nanoseconds ++ "s"
  else if 1000000 ≤ d.nanoseconds then scaled 6 d.nanoseconds ++ "ms"
  else if 1000 ≤ d.nanoseconds then scaled 3 d.nanoseconds ++ "µs"
  else scaled 0 d.nanoseconds ++ "ns"

end Duration

end ChipEight
