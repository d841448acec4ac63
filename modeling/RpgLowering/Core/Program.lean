import RpgLowering.Failure
import RpgLowering.Real.Binary64

/-! The core language between source units and classes: a flat program of global variables and
functions, in which every reference is an index. -/
namespace RpgLowering.Core

inductive Ty where
  | string
  | integer
  | decimal
  deriving DecidableEq, Repr, Inhabited

structure GlobalId where
  index : Nat
  deriving DecidableEq, Repr, Inhabited

structure FunctionId where
  index : Nat
  deriving DecidableEq, Repr, Inhabited

inductive Expr where
  | integer (value : Int64)
  | decimal (value : Binary64)
  | string (value : String)
  /-- The integer that a text spells. -/
  | parse (text : Expr)
  | global (id : GlobalId)
  | concat (left right : Expr)
  | sum (left right : Expr)
  /-- The text of a value. -/
  | format (value : Expr)
  | equal (left right : Expr)
  deriving Inhabited

inductive Stmt where
  | assign (target : GlobalId) (value : Expr)
  /-- Gives the target the zero value of its type. -/
  | reset (target : GlobalId)
  | call (function : FunctionId)
  | print (value : Expr)
  /-- The first case whose condition holds runs, or else the default. -/
  | switch (cases : List (Expr × List Stmt)) (default? : Option (List Stmt))
  /-- Counts up by one, both bounds included. -/
  | loop (counter : GlobalId) (low high : Expr) (body : List Stmt)
  deriving Inhabited

structure Global where
  name : String
  ty : Ty
  initial : Option Expr := none

structure Parameter where
  name : String
  ty : Ty
  deriving DecidableEq, Repr

structure Function where
  name : String
  parameters : List Parameter := []
  body : List Stmt := []

structure Program where
  name : String
  globals : List Global := []
  main : Function := { name := "main" }
  functions : List Function := []

namespace Program

def new (name : String) : Program := { name }

def global? (p : Program) (id : GlobalId) : Option Global := p.globals[id.index]?

def function? (p : Program) (id : FunctionId) : Option Function := p.functions[id.index]?

theorem isSome_global? {p : Program} {id : GlobalId} :
    (p.global? id).isSome ↔ id.index < p.globals.length := by
  simp [global?]

theorem isSome_function? {p : Program} {id : FunctionId} :
    (p.function? id).isSome ↔ id.index < p.functions.length := by
  simp [function?]

def findGlobal? (p : Program) (name : String) : Option GlobalId :=
  (p.globals.findIdx? (·.name == name)).map GlobalId.mk

def findFunction? (p : Program) (name : String) : Option FunctionId :=
  (p.functions.findIdx? (·.name == name)).map FunctionId.mk

/-- Appends a global whose name no other global has. The program is what there is afterwards, also
where the global is refused. -/
def declareGlobal (p : Program) (g : Global) : Except Failure GlobalId × Program :=
  match p.findGlobal? g.name with
  | some _ => (.error (.shape "global variable" ("duplicate name `" ++ g.name ++ "`") none), p)
  | none => (.ok ⟨p.globals.length⟩, { p with globals := p.globals ++ [g] })

/-- Appends a function whose name no other function has. -/
def declareFunction (p : Program) (f : Function) : Except Failure FunctionId × Program :=
  match p.findFunction? f.name with
  | some _ => (.error (.shape "function" ("duplicate name `" ++ f.name ++ "`") none), p)
  | none => (.ok ⟨p.functions.length⟩, { p with functions := p.functions ++ [f] })

def modifyGlobal (p : Program) (id : GlobalId) (f : Global → Global) : Program :=
  { p with globals := p.globals.modify id.index f }

def modifyFunction (p : Program) (id : FunctionId) (f : Function → Function) : Program :=
  { p with functions := p.functions.modify id.index f }

/-- The type of an assignable location. -/
def typeOf? (p : Program) (id : GlobalId) : Option Ty := (p.global? id).map (·.ty)

end Program

/-- The type of an expression. Comparisons have none, nor have references out of range. -/
def Expr.ty? (p : Program) : Expr → Option Ty
  | integer _ | parse _ => some .integer
  | decimal _ => some .decimal
  | string _ | concat .. | format _ => some .string
  | global id => p.typeOf? id
  | sum left right =>
    match left.ty? p, right.ty? p with
    | some a, some b => some (if a = .decimal ∨ b = .decimal then .decimal else .integer)
    | _, _ => none
  | equal .. => none

end RpgLowering.Core
