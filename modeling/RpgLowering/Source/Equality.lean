import RpgLowering.Source.CompilationUnit

/-! Equality of source units by structure, with real literals compared as numbers. -/
namespace RpgLowering.Source

def Expr.same : Expr → Expr → Bool
  | .int s a, .int t b => s == t && a == b
  | .real s a, .real t b => s == t && a.sameNumber b
  | .string s a, .string t b => s == t && a == b
  | .boolean s a, .boolean t b => s == t && a == b
  | .data s a, .data t b => s == t && a == b
  | .binary s op a b, .binary t op' c d => s == t && op == op' && a.same c && b.same d
  | .unary s op a, .unary t op' b => s == t && op == op' && a.same b
  | .assign s a b, .assign t c d => s == t && a.same c && b.same d
  | .dec s a b c, .dec t d e f => s == t && a.same d && b.same e && c.same f
  | _, _ => false

def Expr.sameOption (a b : Option Expr) : Bool := a.toList.isEqv b.toList Expr.same

mutual

def Stmt.same : Stmt → Stmt → Bool
  | .plist s a, .plist t b => s == t && a == b
  | .eval s a b, .eval t c d => s == t && a.same c && b.same d
  | .execute s a, .execute t b => s == t && a == b
  | .clear s a, .clear t b => s == t && a.same b
  | .display s a b, .display t c d => s == t && Expr.sameOption a c && Expr.sameOption b d
  | .set s a b, .set t c d => s == t && a == c && b == d
  | .select s a b, .select t c d => s == t && Stmt.sameCases a c && Stmt.sameOther b d
  | .loop s a b c d e, .loop t f g h i j =>
    s == t && a.same f && b.same g && Expr.sameOption c h && d == i && Stmt.sameAll e j
  | .branch s a b c, .branch t d e f =>
    s == t && a.same d && Stmt.sameAll b e && Stmt.sameOther c f
  | .doWhile s a b, .doWhile t c d => s == t && a.same c && Stmt.sameAll b d
  | .move s a b, .move t c d => s == t && a.same c && b.same d
  | .ret s a, .ret t b => s == t && Expr.sameOption a b
  | .leave s, .leave t => s == t
  | .iterate s, .iterate t => s == t
  | _, _ => false

def Stmt.sameAll : List Stmt → List Stmt → Bool
  | [], [] => true
  | a :: as, b :: bs => a.same b && Stmt.sameAll as bs
  | _, _ => false

def Stmt.sameCases : List (Expr × List Stmt) → List (Expr × List Stmt) → Bool
  | [], [] => true
  | (a, as) :: xs, (b, bs) :: ys => a.same b && Stmt.sameAll as bs && Stmt.sameCases xs ys
  | _, _ => false

def Stmt.sameOther : Option (List Stmt) → Option (List Stmt) → Bool
  | none, none => true
  | some a, some b => Stmt.sameAll a b
  | _, _ => false

end

def DataDefinition.same (a b : DataDefinition) : Bool :=
  a.id == b.id && a.name == b.name && a.ty == b.ty && Expr.sameOption a.initial b.initial &&
    a.span == b.span

def InStatementDefinition.same (a b : InStatementDefinition) : Bool :=
  a.id == b.id && a.name == b.name && a.ty == b.ty && a.span == b.span

def Subroutine.same (a b : Subroutine) : Bool :=
  a.id == b.id && a.name == b.name && Stmt.sameAll a.stmts b.stmts && a.span == b.span

def CompilationUnit.same (a b : CompilationUnit) : Bool :=
  a.data.isEqv b.data DataDefinition.same &&
    a.inStatement.isEqv b.inStatement InStatementDefinition.same &&
    a.subroutines.isEqv b.subroutines Subroutine.same &&
    Stmt.sameAll a.main b.main && a.entry == b.entry

end RpgLowering.Source
