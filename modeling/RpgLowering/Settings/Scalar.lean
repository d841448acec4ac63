import RpgLowering.Real.Numeral
import RpgLowering.Real.Shortest
import RpgLowering.Settings.Value

/-! Bare values of a settings file: numbers, truth values, dates and times. -/
namespace RpgLowering.Settings

def isBareChar (c : Char) : Bool :=
  c.isAlphanum || c == '+' || c == '-' || c == '_' || c == '.' || c == ':'

/-! ### Digits -/

/-- The digits of a group such as `1_000`: an underscore stands between two of them. -/
def grouped (isDigit : Char → Bool) : List Char → Option (List Char)
  | [] => none
  | [c] => if isDigit c then some [c] else none
  | c :: '_' :: cs => if isDigit c then (grouped isDigit cs).map (c :: ·) else none
  | c :: cs => if isDigit c then (grouped isDigit cs).map (c :: ·) else none

def digitValue (c : Char) : Nat :=
  if c.isDigit then c.toNat - '0'.toNat
  else if 'a' ≤ c then c.toNat - 'a'.toNat + 10
  else c.toNat - 'A'.toNat + 10

def isHexDigit (c : Char) : Bool :=
  c.isDigit || ('a' ≤ c && c ≤ 'f') || ('A' ≤ c && c ≤ 'F')

def valueIn (base : Nat) (ds : List Char) : Nat :=
  ds.foldl (fun n d => base * n + digitValue d) 0

/-- Decimal digits that start with a zero only if they are one. -/
def decimalDigits? (cs : List Char) : Option (List Char) :=
  match grouped Char.isDigit cs with
  | some ('0' :: _ :: _) => none
  | ds => ds

/-! ### Integers -/

def integral? (cs : List Char) : Option Int :=
  match cs with
  | '0' :: 'x' :: cs => (grouped isHexDigit cs).map fun ds => (valueIn 16 ds : Int)
  | '0' :: 'o' :: cs =>
    (grouped (fun c => '0' ≤ c && c ≤ '7') cs).map fun ds => (valueIn 8 ds : Int)
  | '0' :: 'b' :: cs =>
    (grouped (fun c => c == '0' || c == '1') cs).map fun ds => (valueIn 2 ds : Int)
  | cs =>
    let (minus, cs) := Numeral.signPart cs
    (decimalDigits? cs).map fun ds =>
      if minus then -(valueIn 10 ds : Int) else (valueIn 10 ds : Int)

/-- An integer of 64 bits. -/
def integer? (cs : List Char) : Option Int64 := do
  let v ← integral? cs
  if -0x8000000000000000 ≤ v ∧ v < 0x8000000000000000 then some (.ofInt v) else none

/-! ### Real numbers -/

/-- The number nearest to `digits * 10 ^ exponent`. The exponents cut off lie far outside the
range of the numbers. -/
def nearestDecimal (digits : Nat) (exponent : Int) : Binary64 :=
  if digits = 0 then .zero
  else if 0 ≤ exponent then .nearest (digits * tenTo (min exponent.natAbs 400)) 1
  else .nearest digits (tenTo (min exponent.natAbs (Decimal.digitCount digits + 400)))

/-- The exponent that may end a real number. -/
def exponent? (cs : List Char) : Option Int :=
  match cs with
  | [] => some 0
  | c :: cs =>
    if c == 'e' || c == 'E' then
      let (minus, cs) := Numeral.signPart cs
      (grouped Char.isDigit cs).map fun ds =>
        if minus then -(valueIn 10 ds : Int) else (valueIn 10 ds : Int)
    else none

def isDigitOrGap (c : Char) : Bool := c.isDigit || c == '_'

/-- The magnitude of a number with a fraction or an exponent. -/
def magnitude? (cs : List Char) : Option Binary64 := do
  let whole ← decimalDigits? (cs.takeWhile isDigitOrGap)
  match cs.dropWhile isDigitOrGap with
  | [] => none
  | '.' :: rest => do
    let fraction ← grouped Char.isDigit (rest.takeWhile isDigitOrGap)
    let e ← exponent? (rest.dropWhile isDigitOrGap)
    some (nearestDecimal (valueIn 10 (whole ++ fraction)) (e - fraction.length))
  | rest => do
    let e ← exponent? rest
    some (nearestDecimal (valueIn 10 whole) e)

def infinity : Binary64 := ⟨0x7ff0000000000000⟩

def notANumber : Binary64 := ⟨0x7ff8000000000000⟩

/-- A number too large for the format is refused, one too far below zero is not. -/
def real? (cs : List Char) : Option Binary64 :=
  let (minus, cs) := Numeral.signPart cs
  let sign (x : Binary64) : Binary64 := if minus then x.neg else x
  if cs == "inf".toList then some (sign infinity)
  else if cs == "nan".toList then some (sign notANumber)
  else do
    let x ← magnitude? cs
    if x.isInfinite && !minus then none else some (sign x)

/-! ### Dates and times -/

def isLeap (year : Nat) : Bool := year % 4 == 0 && (year % 100 != 0 || year % 400 == 0)

def daysIn (year month : Nat) : Nat :=
  if month = 2 then (if isLeap year then 29 else 28)
  else if month ∈ [4, 6, 9, 11] then 30
  else 31

def allDigits (cs : List Char) : Bool := cs.all Char.isDigit

def within (lo hi : Nat) (cs : List Char) : Bool :=
  allDigits cs && lo ≤ valueIn 10 cs && valueIn 10 cs ≤ hi

def isDate (cs : List Char) : Bool :=
  match cs with
  | [y₁, y₂, y₃, y₄, '-', m₁, m₂, '-', d₁, d₂] =>
    let year := [y₁, y₂, y₃, y₄]
    allDigits year && within 1 12 [m₁, m₂] &&
      within 1 (daysIn (valueIn 10 year) (valueIn 10 [m₁, m₂])) [d₁, d₂]
  | _ => false

/-- What follows a time of day; a minute may have a leap second. -/
def afterTime? (cs : List Char) : Option (List Char) :=
  match cs with
  | h₁ :: h₂ :: ':' :: m₁ :: m₂ :: ':' :: s₁ :: s₂ :: rest =>
    if within 0 23 [h₁, h₂] && within 0 59 [m₁, m₂] && within 0 60 [s₁, s₂] then
      match rest with
      | '.' :: d :: rest' => if d.isDigit then some (rest'.dropWhile Char.isDigit) else some rest
      | rest => some rest
    else none
  | _ => none

def isOffset (cs : List Char) : Bool :=
  match cs with
  | [] | ['Z'] | ['z'] => true
  | [sign, h₁, h₂, ':', m₁, m₂] =>
    (sign == '+' || sign == '-') && within 0 23 [h₁, h₂] && within 0 59 [m₁, m₂]
  | _ => false

/-- A time of day that may have an offset. -/
def isZonedTime (cs : List Char) : Bool :=
  match afterTime? cs with
  | some rest => isOffset rest
  | none => false

def isMoment (cs : List Char) : Bool :=
  isDate cs || afterTime? cs == some [] ||
    (isDate (cs.take 10) &&
      match cs.drop 10 with
      | 'T' :: time | 't' :: time => isZonedTime time
      | _ => false)

def bare? (cs : List Char) : Option Value :=
  if cs == "true".toList then some (.boolean true)
  else if cs == "false".toList then some (.boolean false)
  else if isMoment cs then some .moment
  else match integer? cs with
    | some v => some (.integer v)
    | none => (real? cs).map .real

/-- Reads a bare value. A blank may stand between a date and its time. -/
def readBare (cs : List Char) : Option (Value × List Char) :=
  let first := cs.takeWhile isBareChar
  let rest := cs.dropWhile isBareChar
  match rest with
  | ' ' :: c :: more =>
    if isDate first && isBareChar c then
      if isZonedTime ((c :: more).takeWhile isBareChar) then
        some (.moment, (c :: more).dropWhile isBareChar)
      else none
    else (bare? first).map (·, rest)
  | rest => (bare? first).map (·, rest)

end RpgLowering.Settings
