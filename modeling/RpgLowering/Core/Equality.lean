import RpgLowering.Core.Program

/-! Equality of programs by structure, with decimal literals compared as numbers. -/
namespace RpgLowering.Core

def Expr.same : Expr → Expr → Bool
  | .integer a, .integer b => a == b
  | .decimal a, .decimal b => a.sameNumber b
  | .string a, .string b => a == b
  | .parse a, .parse b => a.same b
  | .global a, .global b => a == b
  | .concat a b, .concat c d => a.same c && b.same d
  | .sum a b, .sum c d => a.same c && b.same d
  | .format a, .format b => a.same b
  | .equal a b, .equal c d => a.same c && b.same d
  | _, _ => false

mutual

def Stmt.same : Stmt → Stmt → Bool
  | .assign a b, .assign c d => a == c && b.same d
  | .reset a, .reset b => a == b
  | .call a, .call b => a == b
  | .print a, .print b => a.same b
  | .switch a b, .switch c d => Stmt.sameCases a c && Stmt.sameDefault b d
  | .loop a b c d, .loop e f g h => a == e && b.same f && c.same g && Stmt.sameAll d h
  | _, _ => false

def Stmt.sameAll : List Stmt → List Stmt → Bool
  | [], [] => true
  | a :: as, b :: bs => a.same b && Stmt.sameAll as bs
  | _, _ => false

def Stmt.sameCases : List (Expr × List Stmt) → List (Expr × List Stmt) → Bool
  | [], [] => true
  | (a, as) :: xs, (b, bs) :: ys => a.same b && Stmt.sameAll as bs && Stmt.sameCases xs ys
  | _, _ => false

def Stmt.sameDefault : Option (List Stmt) → Option (List Stmt) → Bool
  | none, none => true
  | some a, some b => Stmt.sameAll a b
  | _, _ => false

end

def Global.same (a b : Global) : Bool :=
  a.name == b.name && a.ty == b.ty && a.initial.toList.isEqv b.initial.toList Expr.same

def Function.same (a b : Function) : Bool :=
  a.name == b.name && a.parameters == b.parameters && Stmt.sameAll a.body b.body

def Program.same (a b : Program) : Bool :=
  a.name == b.name && a.globals.isEqv b.globals Global.same &&
    a.main.same b.main && a.functions.isEqv b.functions Function.same

end RpgLowering.Core
