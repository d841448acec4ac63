import RpgLowering.Core.Program
import RpgLowering.Target.Tree

/-! The class of a program: globals become private fields, the main function the public entry
method, and every other function a private method without parameters. -/
namespace RpgLowering

def Core.Ty.toTarget : Core.Ty → Target.Ty
  | string => .named "java.lang.String"
  | integer => .long
  | decimal => .double

/-- What a reset leaves in a variable. -/
def Core.Ty.zero : Core.Ty → Core.Expr
  | string => .string ""
  | integer => .integer 0
  | decimal => .decimal .zero

namespace Target
open RpgLowering.Core (GlobalId FunctionId Program)

/-- The method that runs the program. -/
def entryName : String := "executeProgram"

def fieldOf (p : Program) (id : GlobalId) : Except Failure Expr :=
  match p.global? id with
  | some g => .ok (.thisField g.name)
  | none => .error (.unresolved ("global #" ++ toString id.index) none)

def equalsTest (p : Program) (left right : Core.Expr) (l r : Expr) : Expr :=
  if left.ty? p = some .string ∧ right.ty? p = some .string then
    .call (some (.name "java.util.Objects")) "equals" [l, r]
  else .binary .equals l r

def Expr.ofCore (p : Program) : Core.Expr → Except Failure Expr
  | .integer v => .ok (.int v)
  | .decimal x => .ok (.double x)
  | .string s => .ok (.string s)
  | .parse e => do
    let e ← Expr.ofCore p e
    .ok (.call (some (.name "java.lang.Long")) "parseLong" [e])
  | .global id => fieldOf p id
  | .concat l r | .sum l r => do
    let l ← Expr.ofCore p l
    let r ← Expr.ofCore p r
    .ok (.binary .plus l r)
  | .format e => do
    let e ← Expr.ofCore p e
    .ok (.binary .plus (.string "") e)
  | .equal left right => do
    let l ← Expr.ofCore p left
    let r ← Expr.ofCore p right
    .ok (equalsTest p left right l r)

def assignTo (target value : Expr) : Stmt := .expr (.assign target value)

/-- An `if` chain in source order; with no case, the default alone as a block. -/
def chain : List (Expr × Stmt) → Option Stmt → Option Stmt
  | [], last => last
  | (condition, body) :: cases, last => some (.branch condition body (chain cases last))

mutual

def Stmt.ofCore (p : Program) : Core.Stmt → Except Failure Stmt
  | .assign target value => do
    let target ← fieldOf p target
    let value ← Expr.ofCore p value
    .ok (assignTo target value)
  | .reset target =>
    match p.typeOf? target with
    | none => .error (.unresolved "reset target" none)
    | some ty => do
      let target ← fieldOf p target
      let zero ← Expr.ofCore p ty.zero
      .ok (assignTo target zero)
  | .call f =>
    match p.function? f with
    | none => .error (.unresolved ("function #" ++ toString f.index) none)
    | some f => .ok (.expr (.call none f.name []))
  | .print value => do
    let value ← Expr.ofCore p value
    .ok (.expr (.call (some (.name "java.lang.System.out")) "println" [value]))
  | .switch cases default? => do
    let cases ← Stmt.ofCases p cases
    let last ← Stmt.ofDefault p default?
    .ok ((chain cases last).getD (.block []))
  | .loop counter low high body => do
    let counter ← fieldOf p counter
    let low ← Expr.ofCore p low
    let high ← Expr.ofCore p high
    let body ← Stmt.ofCores p body
    .ok (.loop [.assign counter low] (some (.binary .atMost counter high)) [.increment counter]
      (.block body))

def Stmt.ofCores (p : Program) : List Core.Stmt → Except Failure (List Stmt)
  | [] => .ok []
  | s :: ss => do
    let s ← Stmt.ofCore p s
    let ss ← Stmt.ofCores p ss
    .ok (s :: ss)

def Stmt.ofCases (p : Program) :
    List (Core.Expr × List Core.Stmt) → Except Failure (List (Expr × Stmt))
  | [] => .ok []
  | (condition, body) :: cases => do
    let condition ← Expr.ofCore p condition
    let body ← Stmt.ofCores p body
    let cases ← Stmt.ofCases p cases
    .ok ((condition, .block body) :: cases)

def Stmt.ofDefault (p : Program) : Option (List Core.Stmt) → Except Failure (Option Stmt)
  | none => .ok none
  | some body => do
    let body ← Stmt.ofCores p body
    .ok (some (.block body))

end

def Field.ofCore (p : Program) (g : Core.Global) : Except Failure Field := do
  let init ← g.initial.mapM (Expr.ofCore p)
  .ok { ty := g.ty.toTarget, name := g.name, initializer := init }

/-- Copies an argument into the field of the same name. -/
def copyIn (x : Core.Parameter) : Stmt := assignTo (.thisField x.name) (.name x.name)

def Method.ofMain (p : Program) : Except Failure Method := do
  let body ← Stmt.ofCores p p.main.body
  .ok { modifiers := [.pub], name := entryName,
        parameters := p.main.parameters.map fun x => ⟨x.ty.toTarget, x.name⟩,
        body := p.main.parameters.map copyIn ++ body }

def Method.ofFunction (p : Program) (f : Core.Function) : Except Failure Method := do
  let body ← Stmt.ofCores p f.body
  .ok { modifiers := [.priv], name := f.name, body }

def Class.ofCore (p : Program) : Except Failure Class := do
  let fields ← p.globals.mapM (Field.ofCore p)
  let entry ← Method.ofMain p
  let others ← p.functions.mapM (Method.ofFunction p)
  .ok { name := p.name, fields, methods := entry :: others }

def SourceFile.ofCore (p : Program) : Except Failure SourceFile := do
  let c ← Class.ofCore p
  .ok ⟨[c]⟩

end Target

end RpgLowering
