import RpgLowering.Proofs.Action
import RpgLowering.Core.OfSource
import Mathlib.Logic.Function.Basic

/-! Runs of source units. Data is found by identity, and so are subroutines; the bound limits the
depth of calls and the iterations of every loop. -/
namespace RpgLowering.Source
open Execution
variable {V : Type}

abbrev Store (V : Type) := DataId → V

section
variable (O : Operations V) (u : CompilationUnit)

/-- A `+` joins texts if its left operand is a text or has no type, and adds otherwise. -/
def Expr.value (σ : Store V) : Expr → Option V
  | .int _ v => some (O.integer v)
  | .real _ x => some (O.decimal x)
  | .string _ s => some (O.string s)
  | .data _ r => r.referred.map σ
  | .binary _ .plus l r => do
    let a ← Expr.value σ l
    let b ← Expr.value σ r
    match l.staticType u with
    | .ok t => if t.isString then O.concat a b else O.sum a b
    | .error _ => O.concat a b
  | .binary _ .equality l r => do O.equal (← Expr.value σ l) (← Expr.value σ r)
  | .unary _ .char e => Expr.value σ e >>= O.format
  | .dec _ e _ _ => Expr.value σ e >>= O.parse
  | _ => none

/-- The item of data that can be assigned through an expression. -/
def Expr.item? : Expr → Option DataId
  | .data _ r => r.referred
  | _ => none

/-- Stores a value, if there is one. -/
def put (id : DataId) (value : Store V → Option V) : Action (Store V) V :=
  .update fun σ => (value σ).map (Function.update σ id)

/-- Does something to the item of data of an expression. -/
def onItem (target : Expr) (act : DataId → Action (Store V) V) : Action (Store V) V :=
  match target.item? with
  | some id => act id
  | none => .stop .failed

/-- The zero of the type that an item of data has in a program. -/
def CompilationUnit.zero? (id : DataId) : Option V := do
  let d ← u.declaration? id
  match d.ty.toCore with
  | .ok t => some (O.values.zero t)
  | .error _ => none

/-- Whether a loop with this step counts by one. -/
def isUnitStep : Option Expr → Bool
  | none => true
  | some (.int _ v) => v == 1
  | some _ => false

variable (call : SubroutineId → Action (Store V) V) (bound : Nat)

mutual

/-- Statements that have no meaning here fail. -/
def Stmt.run : Stmt → Action (Store V) V
  | .plist .. | .set .. => .skip
  | .eval _ target value => onItem target fun id => put id (value.value O u)
  | .clear _ target => onItem target fun id => put id fun _ => u.zero? O id
  | .execute _ r =>
    match r.referred with
    | some id => call id
    | none => .stop .failed
  | .display _ _ response =>
    match response with
    | some e => .print (e.value O u)
    | none => .stop .failed
  | .select _ cases other => Stmt.runCases cases (Stmt.runOther other)
  | .loop _ init limit step down body =>
    match init with
    | .assign _ target first =>
      if down = false ∧ isUnitStep step then
        onItem target fun id =>
          (put id (first.value O u)).andThen
            (.whileTrue (fun σ => limit.value O u σ >>= O.atMost (σ id))
              ((Stmt.runAll body).andThen (put id fun σ => O.next (σ id))) bound)
      else .stop .failed
    | _ => .stop .failed
  | .branch .. | .doWhile .. | .move .. | .ret .. | .leave .. | .iterate .. => .stop .failed

def Stmt.runAll : List Stmt → Action (Store V) V
  | [] => .skip
  | t :: ts => (Stmt.run t).andThen (Stmt.runAll ts)

/-- Runs the first case whose condition holds, or else the given action. -/
def Stmt.runCases : List (Expr × List Stmt) → Action (Store V) V → Action (Store V) V
  | [], otherwise => otherwise
  | (condition, body) :: cases, otherwise =>
    .choose (fun σ => condition.value O u σ >>= O.holds) (Stmt.runAll body)
      (Stmt.runCases cases otherwise)

def Stmt.runOther : Option (List Stmt) → Action (Store V) V
  | none => .skip
  | some body => Stmt.runAll body

end

end

namespace CompilationUnit
variable (O : Operations V) (u : CompilationUnit)

def call : Nat → SubroutineId → Action (Store V) V
  | 0, _ => .stop .exhausted
  | n + 1, id =>
    match u.subroutine? id with
    | some x => Stmt.runAll O u (call n) n x.stmts
    | none => .stop .failed

/-- Copies every argument into the item of data that the entry list refers to. -/
def receive (arguments : String → V) : List (Reference DataId) → Action (Store V) V
  | [] => .skip
  | r :: rs =>
    (Action.update fun σ => do
      let d ← r.referred >>= u.declaration?
      some (Function.update σ d.id (arguments d.name))).andThen (receive arguments rs)

def runMain (bound : Nat) : Action (Store V) V := Stmt.runAll O u (u.call O bound) bound u.main

/-- Runs the main statements on arguments given by the names of the data. -/
def run (arguments : String → V) (bound : Nat) : Action (Store V) V :=
  (u.receive arguments ((u.entry.map (·.parameters)).getD [])).andThen (u.runMain O bound)

end CompilationUnit

end RpgLowering.Source
