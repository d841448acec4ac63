import RpgLowering.Real.Binary64

/-! The shortest decimal that reads back as a given number: the coarsest decimal grid with a
point among the reals that round to the number, and the nearest such point. -/
namespace RpgLowering

/-- `digits * 10 ^ exponent`. -/
structure Decimal where
  digits : Nat
  exponent : Int
  deriving DecidableEq, Repr

namespace Decimal

def digitCount (n : Nat) : Nat := (Nat.toDigits 10 n).length

/-- The power of ten of the leading digit. -/
def leading (d : Decimal) : Int := d.exponent + (digitCount d.digits : Int) - 1

end Decimal

/-- Which of two equally near points is taken. -/
inductive Tie where
  | up
  | toEven
  deriving DecidableEq, Repr

namespace Binary64

/-- The reals that round to a number, in quarters of the last place; the ends belong to it
exactly when the significand is even. -/
structure Interval where
  lower : Nat
  value : Nat
  upper : Nat
  closed : Bool

def interval (x : Binary64) : Interval :=
  let m := x.significand
  { lower := if m = 0x10000000000000 ∧ 0 < x.scale then 4 * m - 1 else 4 * m - 2
    value := 4 * m
    upper := 4 * m + 2
    closed := m % 2 == 0 }

/-- `num / den` is the number of steps of size `10 ^ p` in a quarter of the last place. -/
def gridStep (x : Binary64) (p : Int) : Nat × Nat :=
  (twoTo x.scale * tenTo (-p).toNat, twoTo 1076 * tenTo p.toNat)

/-- The point of the grid `10 ^ p` that stands for the number, if the grid has one. -/
def onGrid (tie : Tie) (x : Binary64) (p : Int) : Option Nat :=
  let i := x.interval
  let (num, den) := x.gridStep p
  let inside (d : Nat) : Bool :=
    if i.closed then i.lower * num ≤ d * den && d * den ≤ i.upper * num
    else i.lower * num < d * den && d * den < i.upper * num
  let v := i.value * num
  let d := v / den
  match inside d, inside (d + 1) with
  | true, false => some d
  | false, true => some (d + 1)
  | false, false => none
  | true, true =>
    if 2 * v < (2 * d + 1) * den then some d
    else if (2 * d + 1) * den < 2 * v then some (d + 1)
    else match tie with
      | .up => some (d + 1)
      | .toEven => if d % 2 = 0 then some d else some (d + 1)

/-- Refines the grid step by step, at most `n` times. -/
def search (tie : Tie) (x : Binary64) : Nat → Int → Decimal
  | 0, p => ⟨x.units, p⟩
  | n + 1, p =>
    match x.onGrid tie p with
    | some d => ⟨d, p⟩
    | none => search tie x n (p - 1)

/-- A grid coarser than the number itself. -/
def coarsest (x : Binary64) : Int :=
  if twoTo 1074 ≤ x.units then Decimal.digitCount (x.units / twoTo 1074)
  else 2 - (Decimal.digitCount (twoTo 1074 / x.units) : Int)

/-- The shortest decimal of the magnitude of a finite number. Seventeen digits always suffice, so
the search never runs out of steps. -/
def shortest (tie : Tie) (x : Binary64) : Decimal :=
  if x.units = 0 then ⟨0, 0⟩ else search tie x 20 x.coarsest

end Binary64

end RpgLowering
