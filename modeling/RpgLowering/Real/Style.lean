import RpgLowering.Real.Shortest

/-! Written forms of numbers. -/
namespace RpgLowering

/-- The decisions of a format that writes numbers. -/
structure NumberStyle where
  /-- Leading powers of ten that are written without an exponent. -/
  positional : Int → Bool
  /-- A whole number keeps a point and a zero. -/
  keepsPoint : Bool
  /-- A positive exponent has a plus sign. -/
  signsExponent : Bool
  tie : Tie

namespace NumberStyle

/-- Sources and dumps: no exponent from 0.0001 up to below 10^16. -/
def listing : NumberStyle :=
  { positional := fun e => -4 ≤ e && e < 16, keepsPoint := true, signsExponent := false, tie := .up }

/-- Documents: no exponent from 0.00001 up to below 10^16. -/
def document : NumberStyle :=
  { positional := fun e => -5 ≤ e && e < 16, keepsPoint := true, signsExponent := true,
    tie := .toEven }

/-- Never an exponent. -/
def plain : NumberStyle :=
  { positional := fun _ => true, keepsPoint := false, signsExponent := false, tie := .up }

def zeros (n : Nat) : List Char := List.replicate n '0'

def positionalText (s : NumberStyle) (d : Decimal) : List Char :=
  let ds := Nat.toDigits 10 d.digits
  if 0 ≤ d.exponent then
    ds ++ zeros d.exponent.toNat ++ (if s.keepsPoint then ['.', '0'] else [])
  else
    let places := (-d.exponent).toNat
    let ds := zeros (places + 1 - ds.length) ++ ds
    ds.take (ds.length - places) ++ '.' :: ds.drop (ds.length - places)

def exponentText (s : NumberStyle) (d : Decimal) : List Char :=
  let e := d.leading
  let mark := if e < 0 then ['-'] else if s.signsExponent then ['+'] else []
  let body := match Nat.toDigits 10 d.digits with
    | c :: rest => if rest.isEmpty then [c] else c :: '.' :: rest
    | [] => []
  body ++ 'e' :: mark ++ Nat.toDigits 10 e.natAbs

/-- The magnitude of a finite number. -/
def magnitudeText (s : NumberStyle) (x : Binary64) : List Char :=
  let d := x.shortest s.tie
  if s.positional d.leading then s.positionalText d else s.exponentText d

def finiteText (s : NumberStyle) (x : Binary64) : List Char :=
  if x.isNegative then '-' :: s.magnitudeText x else s.magnitudeText x

/-- The written form, with words for what is not finite. -/
def text (s : NumberStyle) (x : Binary64) : String :=
  if x.isNaN then "NaN"
  else if x.isInfinite then (if x.isNegative then "-inf" else "inf")
  else String.ofList (s.finiteText x)

end NumberStyle

end RpgLowering
