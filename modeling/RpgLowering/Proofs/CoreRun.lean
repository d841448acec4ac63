import RpgLowering.Proofs.Action
import RpgLowering.Target.OfCore
import Mathlib.Logic.Function.Basic

/-! Runs of programs. Expressions have values by a given meaning; statements are run one after
another, a call runs the function at its index, and the bound limits the depth of calls and the
iterations of every loop. -/
namespace RpgLowering.Core
open Execution
variable {V : Type} {D : Values V}

abbrev Store (V : Type) := GlobalId → V

/-- Values of expressions in a store. The literals that stand for zeros have to have their values;
everything else is free. -/
structure Meaning (D : Values V) where
  value : Expr → Store V → Option V
  value_empty : ∀ σ, value (.string "") σ = some (D.zero .string)
  value_integer_zero : ∀ σ, value (.integer 0) σ = some (D.zero .integer)
  value_decimal_zero : ∀ σ, value (.decimal .zero) σ = some (D.zero .decimal)

theorem Meaning.value_zero (M : Meaning D) (t : Ty) (σ : Store V) :
    M.value t.zero σ = some (D.zero t) := by
  cases t with
  | string => exact M.value_empty σ
  | integer => exact M.value_integer_zero σ
  | decimal => exact M.value_decimal_zero σ

def Expr.value (O : Operations V) (σ : Store V) : Expr → Option V
  | .integer v => some (O.integer v)
  | .decimal x => some (O.decimal x)
  | .string s => some (O.string s)
  | .parse e => e.value O σ >>= O.parse
  | .global id => some (σ id)
  | .concat l r => do O.concat (← l.value O σ) (← r.value O σ)
  | .sum l r => do O.sum (← l.value O σ) (← r.value O σ)
  | .format e => e.value O σ >>= O.format
  | .equal l r => do O.equal (← l.value O σ) (← r.value O σ)

/-- The values of expressions that operations give. -/
def meaningOf (O : Operations V) : Meaning O.values where
  value e σ := e.value O σ
  value_empty _ := rfl
  value_integer_zero _ := rfl
  value_decimal_zero _ := rfl

/-- Stores a value, if there is one. -/
def put (g : GlobalId) (value : Store V → Option V) : Action (Store V) V :=
  .update fun σ => (value σ).map (Function.update σ g)

section
variable (M : Meaning D) (p : Program) (call : FunctionId → Action (Store V) V) (bound : Nat)

mutual

def Stmt.run : Stmt → Action (Store V) V
  | .assign g e => put g (M.value e)
  | .reset g => put g fun _ => (p.typeOf? g).map D.zero
  | .call f => call f
  | .print e => .print (M.value e)
  | .switch cases default? => Stmt.runCases cases (Stmt.runDefault default?)
  | .loop g low high body =>
    (put g (M.value low)).andThen
      (.whileTrue (fun σ => M.value high σ >>= D.atMost (σ g))
        ((Stmt.runAll body).andThen (put g fun σ => D.next (σ g))) bound)

def Stmt.runAll : List Stmt → Action (Store V) V
  | [] => .skip
  | s :: ss => (Stmt.run s).andThen (Stmt.runAll ss)

/-- Runs the first case whose condition holds, or else the given action. -/
def Stmt.runCases : List (Expr × List Stmt) → Action (Store V) V → Action (Store V) V
  | [], otherwise => otherwise
  | (condition, body) :: cases, otherwise =>
    .choose (fun σ => M.value condition σ >>= D.holds) (Stmt.runAll body)
      (Stmt.runCases cases otherwise)

def Stmt.runDefault : Option (List Stmt) → Action (Store V) V
  | none => .skip
  | some body => Stmt.runAll body

end

theorem Stmt.runAll_singleton (s : Stmt) :
    Stmt.runAll M p call bound [s] = s.run M p call bound :=
  Action.andThen_skip _

theorem Stmt.runAll_append (ss ts : List Stmt) : Stmt.runAll M p call bound (ss ++ ts) =
    (Stmt.runAll M p call bound ss).andThen (Stmt.runAll M p call bound ts) := by
  induction ss with
  | nil => rfl
  | cons s ss ih => rw [List.cons_append, Stmt.runAll, ih, Stmt.runAll, Action.andThen_assoc]

end

namespace Program
variable (M : Meaning D) (p : Program)

def call : Nat → FunctionId → Action (Store V) V
  | 0, _ => .stop .exhausted
  | n + 1, id =>
    match p.function? id with
    | some f => Stmt.runAll M p (call n) n f.body
    | none => .stop .failed

/-- Copies every argument into the global of the parameter's name. -/
def receive (arguments : String → V) : List Parameter → Action (Store V) V
  | [] => .skip
  | x :: xs =>
    (Action.update fun σ =>
      (p.findGlobal? x.name).map fun g => Function.update σ g (arguments x.name)).andThen
      (receive arguments xs)

def runBody (bound : Nat) : Action (Store V) V :=
  Stmt.runAll M p (p.call M bound) bound p.main.body

/-- Runs the main function on arguments given by name. -/
def run (arguments : String → V) (bound : Nat) : Action (Store V) V :=
  (p.receive arguments p.main.parameters).andThen (p.runBody M bound)

end Program

mutual

/-- The expressions that a run of the statement may have to evaluate. -/
def Stmt.expressions (p : Program) : Stmt → List Expr
  | .assign _ e | .print e => [e]
  | .reset g => ((p.typeOf? g).map Ty.zero).toList
  | .call _ => []
  | .switch cases default? =>
    Stmt.caseExpressions p cases ++ Stmt.defaultExpressions p default?
  | .loop _ low high body => low :: high :: Stmt.allExpressions p body

def Stmt.allExpressions (p : Program) : List Stmt → List Expr
  | [] => []
  | s :: ss => s.expressions p ++ Stmt.allExpressions p ss

def Stmt.caseExpressions (p : Program) : List (Expr × List Stmt) → List Expr
  | [] => []
  | (condition, body) :: cases =>
    condition :: (Stmt.allExpressions p body ++ Stmt.caseExpressions p cases)

def Stmt.defaultExpressions (p : Program) : Option (List Stmt) → List Expr
  | none => []
  | some body => Stmt.allExpressions p body

end

def Program.expressions (p : Program) : List Expr :=
  (p.main :: p.functions).flatMap fun f => Stmt.allExpressions p f.body

/-- Integers as values; a text counts for its length and a decimal for nothing. -/
def lengths : Operations Int where
  integer v := v.toInt
  decimal _ := 0
  string s := s.length
  concat a b := some (a + b)
  sum a b := some (a + b)
  equal a b := some (if a = b then 1 else 0)
  parse a := some a
  format a := some a
  holds a := some (a != 0)
  atMost a b := some (a ≤ b)
  next a := some (a + 1)

/-- Adds a counter up, starting over when it is two. -/
def tallyProgram : Program :=
  { name := "Tally"
    globals := [
      { name := "TOTAL", ty := .integer },
      { name := "COUNT", ty := .integer, initial := some (.sum (.global ⟨0⟩) (.global ⟨1⟩)) }]
    main := {
      name := "main"
      parameters := [{ name := "TOTAL", ty := .integer }]
      body := [.loop ⟨1⟩ (.integer 1) (.integer 3) [.call ⟨0⟩]] }
    functions := [{
      name := "STEP"
      body := [
        .switch [(.equal (.global ⟨1⟩) (.integer 2), [.reset ⟨0⟩])]
          (some [.assign ⟨0⟩ (.sum (.global ⟨0⟩) (.global ⟨1⟩))]),
        .print (.global ⟨0⟩)] }] }

end RpgLowering.Core
