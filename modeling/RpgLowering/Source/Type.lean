import RpgLowering.Failure

/-! Types of RPG data items. -/
namespace RpgLowering.Source

inductive Ty where
  | string (length : UInt32) (varying : Bool)
  /-- Fixed point; an integer when it has no decimal digits. -/
  | number (entire decimals : UInt32)
  | boolean
  | timestamp
  | array (element : Ty) (count : UInt32)
  | dataStructure (size : UInt32)
  deriving DecidableEq, Repr, Inhabited

namespace Ty

def isString : Ty → Bool
  | string .. => true
  | _ => false

def kindName : Ty → String
  | string .. => "String"
  | number .. => "Number"
  | boolean => "Boolean"
  | timestamp => "Timestamp"
  | array .. => "Array"
  | dataStructure _ => "DataStructure"

/-- The total number of digits has to be below 2^32. -/
def text : Ty → Except Failure String
  | string length varying =>
    .ok ((if varying then "Varying" else "") ++ "String(" ++ toString length.toNat ++ ")")
  | number entire decimals =>
    let total := entire.toNat + decimals.toNat
    if total < 0x100000000 then
      .ok ("Number(" ++ toString total ++ ", " ++ toString decimals.toNat ++ ")")
    else .error (.aborted .digitCount)
  | boolean => .ok "Boolean"
  | timestamp => .ok "Timestamp"
  | array element count => do
    let element ← element.text
    .ok ("Array(" ++ toString count.toNat ++ " x " ++ element ++ ")")
  | dataStructure size => .ok ("DataStructure(" ++ toString size.toNat ++ ")")

end Ty

end RpgLowering.Source
