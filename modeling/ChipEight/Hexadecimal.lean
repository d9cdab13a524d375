/-!
# Hexadecimal numerals

Numbers written in base sixteen with the digits `0` to `9` and `A` to `F`.

* `Hexadecimal.digits n` is the shortest numeral of `n`; zero has the one digit `0`.
* `Hexadecimal.padded width n` puts zeros in front of it until it has `width` digits. A numeral
  that is longer already keeps all its digits.
-/

namespace ChipEight.Hexadecimal

/-- The digit of value `d`, for `d` below 16. -/
def digit (d : Nat) : Char :=
  if d < 10 then Char.ofNat ('0'.toNat + d) else Char.ofNat ('A'.toNat + (d - 10))

/-- The digits of `n`, most significant first, without leading zeros. -/
def digits (n : Nat) : List Char :=
  if n < 16 then [digit n] else digits (n / 16) ++ [digit (n % 16)]

theorem digits_of_lt {n : Nat} (h : n < 16) : digits n = [digit n] := by
  rw [digits, if_pos h]

theorem digits_of_le {n : Nat} (h : 16 ≤ n) : digits n = digits (n / 16) ++ [digit (n % 16)] := by
  rw [digits, if_neg (by omega)]

/-- The numeral of `n` with at least `width` digits. -/
def padded (width n : Nat) : String :=
  String.ofList ((digits n).leftpad width '0')

/-- The numeral of an address or word as messages write it: `0x`, then at least `width` digits. -/
def prefixed (width n : Nat) : String :=
  "0x" ++ padded width n

end ChipEight.Hexadecimal
