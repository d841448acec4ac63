import RpgLowering.Real.Binary64

/-! Numerals: `-12`, `0.5`, `1e+16`. A numeral stands for an integer when it has neither fraction
nor exponent. Its value as a real number is rounded twice, as the value below says. -/
namespace RpgLowering

structure Numeral where
  negative : Bool
  whole : List Nat
  /-- Empty when there is no point. -/
  fraction : List Nat
  /-- Whether the exponent has a minus sign, and its magnitude. -/
  exponent : Option (Bool × Nat)
  deriving DecidableEq, Repr

namespace Numeral

def digitValue (c : Char) : Nat := c.toNat - '0'.toNat

def ofDigits (ds : List Nat) : Nat := ds.foldl (fun n d => 10 * n + d) 0

/-- The digits in front, and what follows them. -/
def digits (cs : List Char) : List Nat × List Char :=
  ((cs.takeWhile Char.isDigit).map digitValue, cs.dropWhile Char.isDigit)

/-- A single zero, or digits that do not start with one. -/
def wholePart? (cs : List Char) : Option (List Nat × List Char) :=
  match digits cs with
  | ([], _) => none
  | (0 :: _ :: _, _) => none
  | part => some part

def fractionPart? (cs : List Char) : Option (List Nat × List Char) :=
  match cs with
  | '.' :: cs =>
    match digits cs with
    | ([], _) => none
    | part => some part
  | cs => some ([], cs)

def signPart (cs : List Char) : Bool × List Char :=
  match cs with
  | '-' :: cs => (true, cs)
  | '+' :: cs => (false, cs)
  | cs => (false, cs)

def exponentPart? (cs : List Char) : Option (Option (Bool × Nat)) :=
  match cs with
  | [] => some none
  | c :: cs =>
    if c == 'e' || c == 'E' then
      let (minus, cs) := signPart cs
      match digits cs with
      | (d :: ds, []) => some (some (minus, ofDigits (d :: ds)))
      | _ => none
    else none

def ofChars? (cs : List Char) : Option Numeral := do
  let (negative, cs) := match cs with
    | '-' :: cs => (true, cs)
    | cs => (false, cs)
  let (whole, cs) ← wholePart? cs
  let (fraction, cs) ← fractionPart? cs
  let exponent ← exponentPart? cs
  some { negative, whole, fraction, exponent }

/-- A zero with a sign is no integer. -/
def integer? (n : Numeral) : Option Int :=
  let value := ofDigits n.whole
  if !n.fraction.isEmpty || n.exponent.isSome then none
  else if n.negative then (if value = 0 then none else some (-(value : Int)))
  else some value

/-- The largest significand that is kept. -/
def widestSignificand : Nat := 0xffffffffffffffff

/-- Appends digits to a significand as long as it stays in range; also says how many digits were
left over. -/
def extend (significand : Nat) : List Nat → Nat × Nat
  | [] => (significand, 0)
  | d :: ds =>
    if 10 * significand + d ≤ widestSignificand then extend (10 * significand + d) ds
    else (significand, ds.length + 1)

def powerOfTen (n : Nat) : Binary64 := .ofNat (tenTo n)

/-- The widest power of ten that one step can scale by. -/
def widestPower : Nat := 308

/-- Scales by a power of ten in one multiplication or division; a power out of reach below is
approached by further divisions, one above is an overflow. -/
def scale? (x : Binary64) (e : Int) : Option Binary64 :=
  if e.natAbs ≤ widestPower then
    if 0 ≤ e then
      let y := x.times (powerOfTen e.natAbs)
      if y.isInfinite then none else some y
    else some (x.dividedBy (powerOfTen e.natAbs))
  else if x.isZero then some x
  else if 0 ≤ e then none
  else scale? (x.dividedBy (powerOfTen widestPower)) (e + widestPower)
termination_by e.natAbs
decreasing_by simp only [widestPower] at *; omega

/-- The magnitude of a numeral, if it is in range. -/
def magnitude? (n : Numeral) : Option Binary64 :=
  let (whole, dropped) := extend 0 n.whole
  let (significand, unused) := extend whole n.fraction
  let shift : Int := dropped - (n.fraction.length - unused : Nat)
  match n.exponent with
  | none => scale? (.ofNat significand) shift
  | some (minus, e) =>
    if 0x80000000 ≤ e then (if significand ≠ 0 ∧ !minus then none else some .zero)
    else scale? (.ofNat significand) (if minus then shift - e else shift + e)

def real? (n : Numeral) : Option Binary64 :=
  n.magnitude?.map fun x => if n.negative then x.neg else x

end Numeral

end RpgLowering
