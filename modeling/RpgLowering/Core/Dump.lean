import RpgLowering.Core.Program
import RpgLowering.Real.Style
import RpgLowering.Text.Quoted
import RpgLowering.Text.Layout

/-! The listing of a program. References are shown by name, or by index when they dangle. -/
namespace RpgLowering.Core
open Text

def Ty.text : Ty → String
  | string => "String"
  | integer => "Integer"
  | decimal => "Decimal"

namespace Program

def globalText (p : Program) (id : GlobalId) : String :=
  match p.global? id with
  | some g => g.name
  | none => "<global#" ++ toString id.index ++ ">"

def functionText (p : Program) (id : FunctionId) : String :=
  match p.function? id with
  | some f => f.name
  | none => "<function#" ++ toString id.index ++ ">"

end Program

def Expr.text (p : Program) : Expr → String
  | integer v => toString v.toInt
  | decimal x => NumberStyle.listing.text x
  | string s => quote s
  | parse e => "int(" ++ e.text p ++ ")"
  | global id => p.globalText id
  | concat l r => "(" ++ l.text p ++ " ++ " ++ r.text p ++ ")"
  | sum l r => "(" ++ l.text p ++ " + " ++ r.text p ++ ")"
  | format e => "str(" ++ e.text p ++ ")"
  | equal l r => "(" ++ l.text p ++ " == " ++ r.text p ++ ")"

mutual

def Stmt.lines (p : Program) (level : Nat) : Stmt → List Line
  | .assign target value => [⟨level, p.globalText target ++ " := " ++ value.text p⟩]
  | .reset target => [⟨level, "reset " ++ p.globalText target⟩]
  | .call f => [⟨level, "call " ++ p.functionText f ++ "()"⟩]
  | .print value => [⟨level, "print " ++ value.text p⟩]
  | .switch cases default? =>
    ⟨level, "switch \x7b"⟩ ::
      (Stmt.caseLines p (level + 1) cases ++ Stmt.defaultLines p (level + 1) default? ++
        [⟨level, "\x7d"⟩])
  | .loop counter low high body =>
    ⟨level, "for " ++ p.globalText counter ++ " in " ++ low.text p ++ "..=" ++ high.text p ++
      " \x7b"⟩ :: (Stmt.linesOf p (level + 1) body ++ [⟨level, "\x7d"⟩])

def Stmt.linesOf (p : Program) (level : Nat) : List Stmt → List Line
  | [] => []
  | s :: ss => s.lines p level ++ Stmt.linesOf p level ss

def Stmt.caseLines (p : Program) (level : Nat) : List (Expr × List Stmt) → List Line
  | [] => []
  | (condition, body) :: cases =>
    ⟨level, "case " ++ condition.text p ++ " \x7b"⟩ ::
      (Stmt.linesOf p (level + 1) body ++ ⟨level, "\x7d"⟩ :: Stmt.caseLines p level cases)

def Stmt.defaultLines (p : Program) (level : Nat) : Option (List Stmt) → List Line
  | none => []
  | some body =>
    ⟨level, "else \x7b"⟩ :: (Stmt.linesOf p (level + 1) body ++ [⟨level, "\x7d"⟩])

end

def Global.line (p : Program) (showTypes : Bool) (g : Global) : Line :=
  let ty := if showTypes then ": " ++ g.ty.text else ""
  let init := match g.initial with
    | some e => " = " ++ e.text p
    | none => ""
  ⟨1, "global " ++ g.name ++ ty ++ init⟩

def Parameter.text (showTypes : Bool) (x : Parameter) : String :=
  if showTypes then x.name ++ ": " ++ x.ty.text else x.name

def Function.lines (p : Program) (showTypes : Bool) (f : Function) : List Line :=
  ⟨1, "fn " ++ f.name ++ "(" ++
    String.intercalate ", " (f.parameters.map (Parameter.text showTypes)) ++ ") \x7b"⟩ ::
    (Stmt.linesOf p 2 f.body ++ [⟨1, "\x7d"⟩])

namespace Program

def lines (showTypes : Bool) (p : Program) : List Line :=
  ⟨0, "ir::Program " ++ p.name ++ " \x7b"⟩ ::
    (p.globals.map (Global.line p showTypes) ++
      (p.main :: p.functions).flatMap (Function.lines p showTypes) ++ [⟨0, "\x7d"⟩])

def dump (indent : Nat) (showTypes : Bool) (p : Program) : Except Failure String :=
  render indent (p.lines showTypes)

end Program

end RpgLowering.Core
