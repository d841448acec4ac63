import RpgLowering.Source.CompilationUnit
import RpgLowering.Real.Style

/-! Static types of expressions, as far as they are modelled. -/
namespace RpgLowering.Source

inductive TypeError where
  | notModelled (kind : String)
  | unresolved (name : String)
  | unknownDefinition (name : String)
  deriving DecidableEq, Repr

def TypeError.message : TypeError → String
  | notModelled kind => "type of " ++ kind ++ " expressions is not modelled"
  | unresolved name => "reference to `" ++ name ++ "` is not resolved"
  | unknownDefinition name => "no data definition bound to `" ++ name ++ "`"

def widest32 : Nat := 0xffffffff

/-- Lengths add up to at most the widest one. -/
def addLengths (a b : UInt32) : UInt32 := (min (a.toNat + b.toNat) widest32).toUInt32

def intType (v : Int64) : Ty := .number (Decimal.digitCount v.toInt.natAbs).toUInt32 0

/-- The digits before and after the point when no exponent is written. -/
def realType (x : Binary64) : Ty :=
  let cs := (NumberStyle.plain.text x.abs).toList
  .number (cs.takeWhile (· != '.')).length.toUInt32
    ((cs.dropWhile (· != '.')).length - 1).toUInt32

/-- The type of a text put in front of another. -/
def joinTypes : Ty → Except TypeError Ty → Ty
  | .string a varying, .ok (.string b _) => .string (addLengths a b) varying
  | t, _ => t

/-- `%DEC` with literal digits `d` and places `p`, for `0 ≤ p ≤ d`. -/
def decType : Expr → Expr → Except TypeError Ty
  | .int _ d, .int _ p =>
    if p ≤ d ∧ 0 ≤ p then
      .ok (.number (d.toInt - p.toInt).toNat.toUInt32 p.toInt.toNat.toUInt32)
    else .error (.notModelled "%DEC")
  | _, _ => .error (.notModelled "%DEC")

def CompilationUnit.typeOf (u : CompilationUnit) (r : Reference DataId) : Except TypeError Ty :=
  match r.referred with
  | none => .error (.unresolved r.name)
  | some id =>
    match u.declaration? id with
    | some d => .ok d.ty
    | none => .error (.unknownDefinition r.name)

def Expr.staticType (u : CompilationUnit) : Expr → Except TypeError Ty
  | .int _ v => .ok (intType v)
  | .real _ x => .ok (realType x)
  | .string _ s => .ok (.string s.length.toUInt32 false)
  | .boolean .. => .ok .boolean
  | .data _ r => u.typeOf r
  | .binary _ op left right =>
    match op with
    | .plus => do
      let t ← left.staticType u
      .ok (joinTypes t (right.staticType u))
    | .minus => left.staticType u
    | .equality | .different | .lessThan | .greaterThan => .ok .boolean
    | .mult | .div => .error (.notModelled op.kindName)
  | .unary _ op _ =>
    match op with
    | .not => .ok .boolean
    | .char | .trim => .ok (.string 0 true)
    | .len => .ok (.number 10 0)
    | .int => .error (.notModelled op.kindName)
  | .assign .. => .error (.notModelled "Assignment")
  | .dec _ _ digits places => decType digits places

end RpgLowering.Source
