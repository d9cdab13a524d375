/-!
# General registers

The sixteen byte registers `V0` to `VF`. Some instructions use the last one, `Registers.flag`, for
a carry, a shifted-out bit or a collision.

Every operation is described through `Registers.get`.
-/

namespace ChipEight

/-- The number of registers. -/
abbrev Registers.count : Nat := 16

/-- The contents of the registers `V0` to `VF`. -/
structure Registers where
  /-- The bytes by register number. -/
  bytes : Vector UInt8 Registers.count
deriving DecidableEq, Repr

namespace Registers

/-- The register that receives carries, shifted-out bits and collisions. -/
def flag : Fin 16 := ⟨0xF, by decide⟩

/-- The first register, `V0`. -/
def first : Fin 16 := ⟨0, by decide⟩

/-- All registers zero. -/
def zeroed : Registers := ⟨Vector.replicate count 0⟩

/-- The content of register `x`. -/
def get (r : Registers) (x : Fin 16) : UInt8 :=
  r.bytes.get x

/-- Replaces the content of register `x`. -/
def set (r : Registers) (x : Fin 16) (value : UInt8) : Registers :=
  ⟨r.bytes.setIfInBounds x value⟩

/-- The contents of `V0` up to and including register `x`. -/
def upTo (r : Registers) (x : Fin 16) : List UInt8 :=
  r.bytes.toList.take (x.val + 1)

/-- Replaces `V0` up to and including register `x` by the values of `value` at their numbers. -/
def fill (r : Registers) (x : Fin 16) (value : Nat → UInt8) : Registers :=
  ⟨Vector.ofFn fun k => if k ≤ x then value k else r.get k⟩

/-- The contents of all registers, `V0` first. -/
def toList (r : Registers) : List UInt8 :=
  r.bytes.toList

theorem get_mk (r : Registers) {k : Nat} (h : k < 16) : r.get ⟨k, h⟩ = r.bytes[k] := rfl

/-- Two sets of registers are equal when every register holds the same byte. -/
@[ext] theorem ext_get {r r' : Registers} (h : ∀ x, r.get x = r'.get x) : r = r' := by
  obtain ⟨v⟩ := r
  obtain ⟨v'⟩ := r'
  rw [mk.injEq]
  ext1 i hi
  exact h ⟨i, hi⟩

@[simp] theorem get_zeroed (x : Fin 16) : zeroed.get x = 0 := by
  obtain ⟨k, hk⟩ := x
  simp [get_mk, zeroed]

theorem get_set (r : Registers) (x y : Fin 16) (value : UInt8) :
    (r.set x value).get y = if x = y then value else r.get y := by
  obtain ⟨i, hi⟩ := x
  obtain ⟨k, hk⟩ := y
  simp [get_mk, set, Vector.getElem_setIfInBounds, Fin.ext_iff]

@[simp] theorem get_set_self (r : Registers) (x : Fin 16) (value : UInt8) :
    (r.set x value).get x = value := by
  simp [get_set]

theorem get_set_of_ne (r : Registers) {x y : Fin 16} (value : UInt8) (h : y ≠ x) :
    (r.set x value).get y = r.get y := by
  simp [get_set, h.symm]

theorem get_fill (r : Registers) (x y : Fin 16) (value : Nat → UInt8) :
    (r.fill x value).get y = if y ≤ x then value y else r.get y := by
  obtain ⟨k, hk⟩ := y
  simp [get_mk, fill]

@[simp] theorem length_upTo (r : Registers) (x : Fin 16) : (r.upTo x).length = x.val + 1 := by
  have hx : x.val + 1 ≤ count := x.isLt
  rw [upTo, List.length_take, Vector.length_toList, Nat.min_eq_left hx]

theorem getElem_upTo (r : Registers) (x : Fin 16) {k : Nat} (h : k < (r.upTo x).length) :
    (r.upTo x)[k] = r.get ⟨k, by rw [length_upTo] at h; omega⟩ := by
  simp [upTo, get_mk]

end Registers

end ChipEight
