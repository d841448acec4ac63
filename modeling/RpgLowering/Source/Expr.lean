import RpgLowering.Span
import RpgLowering.Real.Binary64

/-! RPG expressions after name resolution. Every node may carry its span. -/
namespace RpgLowering.Source

structure DataId where
  val : UInt32
  deriving DecidableEq, Repr, Inhabited

structure SubroutineId where
  val : UInt32
  deriving DecidableEq, Repr, Inhabited

/-- A name as written, and the declaration it was bound to. -/
structure Reference (ι : Type) where
  name : String
  referred : Option ι
  deriving DecidableEq, Repr

inductive BinaryOp where
  | plus
  | minus
  | mult
  | div
  | equality
  | different
  | lessThan
  | greaterThan
  deriving DecidableEq, Repr

inductive UnaryOp where
  | not
  | char
  | int
  | trim
  | len
  deriving DecidableEq, Repr

inductive Expr where
  | int (span : Option Span) (value : Int64)
  | real (span : Option Span) (value : Binary64)
  | string (span : Option Span) (value : String)
  | boolean (span : Option Span) (value : Bool)
  | data (span : Option Span) (reference : Reference DataId)
  | binary (span : Option Span) (op : BinaryOp) (left right : Expr)
  | unary (span : Option Span) (op : UnaryOp) (operand : Expr)
  /-- `target = value`, as a `FOR` has it. -/
  | assign (span : Option Span) (target value : Expr)
  /-- `%DEC(value : digits : places)` -/
  | dec (span : Option Span) (value digits places : Expr)
  deriving DecidableEq, Repr

def BinaryOp.kindName : BinaryOp → String
  | plus => "Plus"
  | minus => "Minus"
  | mult => "Mult"
  | div => "Div"
  | equality => "Equality"
  | different => "Different"
  | lessThan => "LessThan"
  | greaterThan => "GreaterThan"

def UnaryOp.kindName : UnaryOp → String
  | not => "Not"
  | char => "%CHAR"
  | int => "%INT"
  | trim => "%TRIM"
  | len => "%LEN"

namespace Expr

def kindName : Expr → String
  | int .. => "IntLiteral"
  | real .. => "RealLiteral"
  | string .. => "StringLiteral"
  | boolean .. => "BooleanLiteral"
  | data .. => "DataRef"
  | binary _ op .. => op.kindName
  | unary _ op _ => op.kindName
  | assign .. => "Assignment"
  | dec .. => "%DEC"

def span : Expr → Option Span
  | int s _ | real s _ | string s _ | boolean s _ | data s _ | binary s .. | unary s .. |
    assign s .. | dec s .. => s

def withSpan (s : Option Span) : Expr → Expr
  | int _ v => int s v
  | real _ x => real s x
  | string _ t => string s t
  | boolean _ b => boolean s b
  | data _ r => data s r
  | binary _ op l r => binary s op l r
  | unary _ op e => unary s op e
  | assign _ t v => assign s t v
  | dec _ v d p => dec s v d p

@[simp] theorem span_withSpan (s : Option Span) (e : Expr) : (e.withSpan s).span = s := by
  cases e <;> rfl

@[simp] theorem kindName_withSpan (s : Option Span) (e : Expr) :
    (e.withSpan s).kindName = e.kindName := by
  cases e <;> rfl

end Expr

end RpgLowering.Source
