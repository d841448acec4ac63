import RpgLowering.Source.Expr

/-! RPG statements. -/
namespace RpgLowering.Source

structure ParameterList where
  parameters : List (Reference DataId)
  isEntry : Bool
  deriving DecidableEq, Repr

inductive IndicatorValue where
  | on
  | off
  deriving DecidableEq, Repr

inductive Stmt where
  | plist (span : Option Span) (list : ParameterList)
  | eval (span : Option Span) (target value : Expr)
  | execute (span : Option Span) (subroutine : Reference SubroutineId)
  | clear (span : Option Span) (target : Expr)
  | display (span : Option Span) (factor response : Option Expr)
  | set (span : Option Span) (value : IndicatorValue) (indicators : List String)
  | select (span : Option Span) (cases : List (Expr × List Stmt)) (other : Option (List Stmt))
  /-- `FOR init TO limit BY step`, or `DOWNTO` when it counts down. -/
  | loop (span : Option Span) (init limit : Expr) (step : Option Expr) (down : Bool)
      (body : List Stmt)
  | branch (span : Option Span) (condition : Expr) (body : List Stmt)
      (otherwise : Option (List Stmt))
  | doWhile (span : Option Span) (condition : Expr) (body : List Stmt)
  | move (span : Option Span) (target value : Expr)
  | ret (span : Option Span) (value : Option Expr)
  | leave (span : Option Span)
  | iterate (span : Option Span)

namespace Stmt

def opcode : Stmt → String
  | plist .. => "PLIST"
  | eval .. => "EVAL"
  | execute .. => "EXSR"
  | clear .. => "CLEAR"
  | display .. => "DSPLY"
  | set _ .on _ => "SETON"
  | set _ .off _ => "SETOFF"
  | select .. => "SELECT"
  | loop .. => "FOR"
  | branch .. => "IF"
  | doWhile .. => "DOW"
  | move .. => "MOVE"
  | ret .. => "RETURN"
  | leave _ => "LEAVE"
  | iterate _ => "ITER"

def span : Stmt → Option Span
  | plist s _ | eval s .. | execute s _ | clear s _ | display s .. | set s .. | select s .. |
    loop s .. | branch s .. | doWhile s .. | move s .. | ret s _ | leave s | iterate s => s

def withSpan (s : Option Span) : Stmt → Stmt
  | plist _ l => plist s l
  | eval _ t v => eval s t v
  | execute _ r => execute s r
  | clear _ t => clear s t
  | display _ f r => display s f r
  | set _ v is => set s v is
  | select _ cs o => select s cs o
  | loop _ i l st d b => loop s i l st d b
  | branch _ c b o => branch s c b o
  | doWhile _ c b => doWhile s c b
  | move _ t v => move s t v
  | ret _ v => ret s v
  | leave _ => leave s
  | iterate _ => iterate s

@[simp] theorem span_withSpan (s : Option Span) (t : Stmt) : (t.withSpan s).span = s := by
  cases t <;> rfl

end Stmt

end RpgLowering.Source
