import RpgLowering.Core.Program
import RpgLowering.Source.Typing

/-! The program of a source unit. Data is declared first, then subroutines, and only then are
bodies lowered, so a statement may refer to any declaration. An initial value may refer to data
declared before it and to its own. Only the first declaration of an identity counts; of several
subroutines with one identity the first gives the name and the last the body. -/
namespace RpgLowering

def Source.Ty.toCore (t : Source.Ty) : Except Failure Core.Ty :=
  match t with
  | .string .. => .ok .string
  | .number _ decimals => .ok (if decimals = 0 then .integer else .decimal)
  | .boolean | .timestamp | .array .. | .dataStructure _ => do
    let text ← t.text
    .error (.unsupported ("type " ++ text) none)

namespace Core
open RpgLowering.Source (CompilationUnit DataDefinition DataId Reference Subroutine SubroutineId)

/-- What has been declared for the identities of a unit. -/
structure Scope where
  unit : CompilationUnit
  globals : List (DataId × GlobalId) := []
  functions : List (SubroutineId × FunctionId) := []

namespace Scope

def global (s : Scope) (r : Reference DataId) (span : Option Span) : Except Failure GlobalId :=
  match r.referred.bind (s.globals.lookup ·) with
  | some id => .ok id
  | none => .error (.unresolved r.name span)

def function (s : Scope) (r : Reference SubroutineId) (span : Option Span) :
    Except Failure FunctionId :=
  match r.referred.bind (s.functions.lookup ·) with
  | some id => .ok id
  | none => .error (.unresolved r.name span)

end Scope

/-- Whether `+` after this operand joins texts. An operand without a type counts as a text. -/
def isText (u : CompilationUnit) (e : Source.Expr) : Bool :=
  match e.staticType u with
  | .ok t => t.isString
  | .error _ => true

def Expr.ofSource (s : Scope) : Source.Expr → Except Failure Expr
  | .int _ v => .ok (.integer v)
  | .real _ x => .ok (.decimal x)
  | .string _ t => .ok (.string t)
  | .boolean span _ => .error (.unsupported "expression BooleanLiteral" span)
  | .data span r => do
    let id ← s.global r span
    .ok (.global id)
  | .binary span op left right =>
    match op with
    | .plus => do
      let l ← Expr.ofSource s left
      let r ← Expr.ofSource s right
      .ok (if isText s.unit left then .concat l r else .sum l r)
    | .equality => do
      let l ← Expr.ofSource s left
      let r ← Expr.ofSource s right
      .ok (.equal l r)
    | op => .error (.unsupported ("expression " ++ op.kindName) span)
  | .unary span op e =>
    match op with
    | .char => do
      let e ← Expr.ofSource s e
      .ok (.format e)
    | op => .error (.unsupported ("expression " ++ op.kindName) span)
  | .assign span .. => .error (.unsupported "expression Assignment" span)
  /- The digits are not modelled: the text is read as an integer. -/
  | .dec _ value .. => do
    let e ← Expr.ofSource s value
    .ok (.parse e)

/-- Only a data reference can be assigned to. -/
def targetOf (s : Scope) : Source.Expr → Except Failure GlobalId
  | .data span r => s.global r span
  | e => .error (.unsupported ("target " ++ e.kindName) e.span)

/-- The target and the first value of a loop that counts up by one. -/
def loopStart (span : Option Span) (init : Source.Expr) (step : Option Source.Expr) (down : Bool) :
    Except Failure (Source.Expr × Source.Expr) :=
  if down then .error (.shape "FOR" "DOWNTO loops are not supported" span)
  else if !(step.all fun e => match e with
      | .int _ v => v == 1
      | _ => false) then .error (.shape "FOR" "step must be the literal 1" span)
  else match init with
    | .assign _ target value => .ok (target, value)
    | e => .error
      (.shape "FOR" ("initializer is " ++ e.kindName ++ " rather than an assignment") span)

mutual

/-- The statement, or nothing if it has no effect in the program. -/
def Stmt.ofSource (s : Scope) : Source.Stmt → Except Failure (Option Stmt)
  | .plist .. | .set .. => .ok none
  | .eval _ target value => do
    let target ← targetOf s target
    let value ← Expr.ofSource s value
    .ok (some (.assign target value))
  | .execute span r => do
    let id ← s.function r span
    .ok (some (.call id))
  | .clear _ target => do
    let target ← targetOf s target
    .ok (some (.reset target))
  | .display span _ response =>
    match response with
    | some e => do
      let e ← Expr.ofSource s e
      .ok (some (.print e))
    | none => .error (.shape "DSPLY" "no response expression" span)
  | .select _ cases other => do
    let cases ← Stmt.ofCases s cases
    let other ← Stmt.ofOther s other
    .ok (some (.switch cases other))
  | .loop span init limit step down body => do
    let (target, first) ← loopStart span init step down
    let counter ← targetOf s target
    let low ← Expr.ofSource s first
    let high ← Expr.ofSource s limit
    let body ← Stmt.ofSources s body
    .ok (some (.loop counter low high body))
  | .branch span .. => .error (.unsupported "statement IF" span)
  | .doWhile span .. => .error (.unsupported "statement DOW" span)
  | .move span .. => .error (.unsupported "statement MOVE" span)
  | .ret span _ => .error (.unsupported "statement RETURN" span)
  | .leave span => .error (.unsupported "statement LEAVE" span)
  | .iterate span => .error (.unsupported "statement ITER" span)

def Stmt.ofSources (s : Scope) : List Source.Stmt → Except Failure (List Stmt)
  | [] => .ok []
  | t :: ts => do
    let first ← Stmt.ofSource s t
    let rest ← Stmt.ofSources s ts
    .ok (first.toList ++ rest)

def Stmt.ofCases (s : Scope) :
    List (Source.Expr × List Source.Stmt) → Except Failure (List (Expr × List Stmt))
  | [] => .ok []
  | (condition, body) :: cases => do
    let condition ← Expr.ofSource s condition
    let body ← Stmt.ofSources s body
    let cases ← Stmt.ofCases s cases
    .ok ((condition, body) :: cases)

def Stmt.ofOther (s : Scope) : Option (List Source.Stmt) → Except Failure (Option (List Stmt))
  | none => .ok none
  | some body => do
    let body ← Stmt.ofSources s body
    .ok (some body)

end

/-- Places a failure that has no span of its own. -/
def located {α : Type} (span : Option Span) : Except Failure α → Except Failure α
  | .ok a => .ok a
  | .error f => .error (f.orAt span)

/-- Declares the global of an item of data, still without a value. -/
def declareGlobalOf (s : Scope) (p : Program) (d : DataDefinition) :
    Except Failure (GlobalId × Scope × Program) := do
  let ty ← located d.span d.ty.toCore
  let declared := p.declareGlobal { name := d.name, ty }
  let id ← located d.span declared.1
  .ok (id, { s with globals := s.globals ++ [(d.id, id)] }, declared.2)

/-- Declares one item of data, unless its identity has been declared. -/
def declareData (s : Scope) (p : Program) (d : DataDefinition) :
    Except Failure (Scope × Program) :=
  if (s.globals.lookup d.id).isSome then .ok (s, p)
  else do
    let (id, s, p) ← declareGlobalOf s p d
    match d.initial with
    | none => .ok (s, p)
    | some e => do
      let value ← Expr.ofSource s e
      match p.global? id with
      | some _ => .ok (s, p.modifyGlobal id fun g => { g with initial := some value })
      | none => .error (.unresolved d.name d.span)

def declareAllData (s : Scope) (p : Program) :
    List DataDefinition → Except Failure (Scope × Program)
  | [] => .ok (s, p)
  | d :: ds => do
    let (s, p) ← declareData s p d
    declareAllData s p ds

/-- Declares the function of a subroutine, unless its identity has been declared. -/
def declareSubroutine (s : Scope) (p : Program) (x : Subroutine) :
    Except Failure (Scope × Program) :=
  if (s.functions.lookup x.id).isSome then .ok (s, p)
  else do
    let declared := p.declareFunction { name := x.name }
    let id ← located x.span declared.1
    .ok ({ s with functions := s.functions ++ [(x.id, id)] }, declared.2)

def declareAllSubroutines (s : Scope) (p : Program) :
    List Subroutine → Except Failure (Scope × Program)
  | [] => .ok (s, p)
  | x :: xs => do
    let (s, p) ← declareSubroutine s p x
    declareAllSubroutines s p xs

/-- A parameter of the main function has the name and the type of its global. -/
def parameterOf (s : Scope) (p : Program) (r : Reference DataId) : Except Failure Parameter := do
  let id ← s.global r none
  match p.global? id with
  | some g => .ok { name := g.name, ty := g.ty }
  | none => .error (.unresolved r.name none)

def withMain (s : Scope) (p : Program) : Except Failure Program := do
  let parameters ← match s.unit.entry with
    | some list => list.parameters.mapM (parameterOf s p)
    | none => .ok []
  let body ← Stmt.ofSources s s.unit.main
  .ok { p with main := { p.main with parameters, body } }

/-- Gives every subroutine's statements to its function. -/
def withBodies (s : Scope) (p : Program) : List Subroutine → Except Failure Program
  | [] => .ok p
  | x :: xs =>
    match s.functions.lookup x.id with
    | none => .error (.unresolved x.name x.span)
    | some id => do
      let body ← Stmt.ofSources s x.stmts
      match p.function? id with
      | some _ => withBodies s (p.modifyFunction id fun f => { f with body }) xs
      | none => .error (.unresolved x.name x.span)

/-- Lowers a unit to the program of a given name. -/
def Program.ofSource (name : String) (u : CompilationUnit) : Except Failure Program := do
  let (s, p) ← declareAllData { unit := u } (Program.new name) u.declarations
  let (s, p) ← declareAllSubroutines s p u.subroutines
  let p ← withMain s p
  withBodies s p u.subroutines

end Core

end RpgLowering
