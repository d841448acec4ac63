/-! Double-precision numbers as their 64-bit patterns. A finite pattern stands for
`significand * 2 ^ scale / 2 ^ 1074`, with a sign, so that all arithmetic is on natural numbers. -/
namespace RpgLowering

def twoTo (n : Nat) : Nat := Nat.pow 2 n

def tenTo (n : Nat) : Nat := Nat.pow 10 n

structure Binary64 where
  bits : UInt64
  deriving DecidableEq, Repr, Inhabited

namespace Binary64

def isNegative (x : Binary64) : Bool := 0x8000000000000000 ≤ x.bits.toNat

def exponentField (x : Binary64) : Nat := x.bits.toNat / 0x10000000000000 % 0x800

def fractionField (x : Binary64) : Nat := x.bits.toNat % 0x10000000000000

def isFinite (x : Binary64) : Bool := x.exponentField != 2047

def isInfinite (x : Binary64) : Bool := x.exponentField == 2047 && x.fractionField == 0

def isNaN (x : Binary64) : Bool := x.exponentField == 2047 && x.fractionField != 0

def significand (x : Binary64) : Nat :=
  if x.exponentField = 0 then x.fractionField else 0x10000000000000 + x.fractionField

def scale (x : Binary64) : Nat := x.exponentField - 1

/-- The magnitude in units of `2 ^ (-1074)`, the least positive one. -/
def units (x : Binary64) : Nat := x.significand * twoTo x.scale

def isZero (x : Binary64) : Bool := x.isFinite && x.units == 0

/-- Equality of numbers: the two zeros are equal, and no NaN equals anything. -/
def sameNumber (x y : Binary64) : Bool :=
  !x.isNaN && !y.isNaN && (x.bits == y.bits || (x.isZero && y.isZero))

def zero : Binary64 := ⟨0⟩

/-- The sign is the highest bit. -/
def neg (x : Binary64) : Binary64 := ⟨x.bits + 0x8000000000000000⟩

def abs (x : Binary64) : Binary64 := ⟨x.bits % 0x8000000000000000⟩

/-- The quotient rounded to the nearest natural number, a half to the even one. -/
def roundDiv (num den : Nat) : Nat :=
  let q := num / den
  let r := num % den
  if 2 * r < den ∨ (2 * r = den ∧ q % 2 = 0) then q else q + 1

/-- The number nearest to `num / den`. The exponent and the significand lie one above the other
in the pattern, so a significand that rounds up to `2 ^ 53` carries into the exponent. -/
def nearest (num den : Nat) : Binary64 :=
  let n := num * twoTo 1074
  let k := (n / den).log2 - 52
  ⟨(min (k * 0x10000000000000 + roundDiv n (den * twoTo k)) 0x7ff0000000000000).toUInt64⟩

def ofNat (n : Nat) : Binary64 := nearest n 1

/-- The product of two magnitudes. -/
def times (x y : Binary64) : Binary64 := nearest (x.units * y.units) (twoTo 2148)

/-- The quotient of two magnitudes, the second not zero. -/
def dividedBy (x y : Binary64) : Binary64 := nearest x.units y.units

end Binary64

end RpgLowering
