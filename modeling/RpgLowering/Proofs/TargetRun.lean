import RpgLowering.Proofs.Action
import RpgLowering.Target.OfCore
import Mathlib.Logic.Function.Basic

/-! Runs of classes. A field is found by its name among the fields of the class, a simple name
among the parameters of the running method, and a call without a scope by its name among the
private methods. What other expressions are worth is given. -/
namespace RpgLowering.Target
open Execution
variable {V : Type}

abbrev Store (V : Type) := String → V

namespace Class

/-- The value of a field of the class. -/
def read (c : Class) (τ : Store V) (name : String) : Option V :=
  (c.field? name).map fun _ => τ name

def write (c : Class) (τ : Store V) (name : String) (v : V) : Option (Store V) :=
  (c.field? name).map fun _ => Function.update τ name v

def privateMethod? (c : Class) (name : String) : Option Method :=
  c.methods.find? fun m => m.name == name && m.modifiers.contains .priv

def publicMethod? (c : Class) (name : String) : Option Method :=
  c.methods.find? fun m => m.name == name && m.modifiers.contains .pub

end Class

/-- What a method's parameters are bound to. -/
def Method.locals (m : Method) (arguments : String → V) (name : String) : Option V :=
  (m.parameters.find? (·.name == name)).map fun x => arguments x.name

/-- Values of expressions that are neither fields nor simple names, from the values of fields. -/
abbrev Meaning (V : Type) := Expr → (String → Option V) → Option V

section
variable (D : Values V) (M : Meaning V) (c : Class) (locals : String → Option V)

def Expr.value (τ : Store V) : Expr → Option V
  | .field .this n => c.read τ n
  | .name n => locals n
  | e => M e (c.read τ)

def Expr.test (τ : Store V) : Expr → Option Bool
  | .binary .atMost l r => do
    let a ← l.value M c locals τ
    let b ← r.value M c locals τ
    D.atMost a b
  | e => e.value M c locals τ >>= D.holds

variable (call : String → Action (Store V) V)

/-- An expression as a statement. -/
def Expr.perform : Expr → Action (Store V) V
  | .assign (.field .this n) e => .update fun τ => e.value M c locals τ >>= c.write τ n
  | .increment (.field .this n) => .update fun τ => c.read τ n >>= D.next >>= c.write τ n
  | .call none n [] => call n
  | .call (some (.name out)) n [e] =>
    if out = "java.lang.System.out" ∧ n = "println" then .print fun τ => e.value M c locals τ
    else .stop .failed
  | _ => .stop .failed

def Expr.performAll : List Expr → Action (Store V) V
  | [] => .skip
  | e :: es => (e.perform D M c locals call).andThen (Expr.performAll es)

variable (bound : Nat)

mutual

def Stmt.run : Stmt → Action (Store V) V
  | .expr e => e.perform D M c locals call
  | .branch condition yes no =>
    .choose (fun τ => condition.test D M c locals τ) (Stmt.run yes) (Stmt.runElse no)
  | .loop init test update body =>
    (Expr.performAll D M c locals call init).andThen
      (.whileTrue (fun τ => (test.map fun e => e.test D M c locals τ).getD (some true))
        ((Stmt.run body).andThen (Expr.performAll D M c locals call update)) bound)
  | .block stmts => Stmt.runAll stmts

def Stmt.runElse : Option Stmt → Action (Store V) V
  | none => .skip
  | some s => Stmt.run s

def Stmt.runAll : List Stmt → Action (Store V) V
  | [] => .skip
  | s :: ss => (Stmt.run s).andThen (Stmt.runAll ss)

end

theorem Stmt.run_assignTo (n : String) (e : Expr) :
    (assignTo (.thisField n) e).run D M c locals call bound =
      .update fun τ => e.value M c locals τ >>= c.write τ n := rfl

theorem Stmt.run_println (e : Expr) :
    (Stmt.expr (.call (some (.name "java.lang.System.out")) "println" [e])).run D M c locals call
      bound = .print fun τ => e.value M c locals τ := by
  simp [Stmt.run, Expr.perform]

theorem Stmt.run_for (init test update : Expr) (body : List Stmt) :
    (Stmt.loop [init] (some test) [update] (.block body)).run D M c locals call bound =
      (init.perform D M c locals call).andThen
        (.whileTrue (fun τ => test.test D M c locals τ)
          ((Stmt.runAll D M c locals call bound body).andThen
            (update.perform D M c locals call)) bound) := by
  simp only [Stmt.run, Expr.performAll, Action.andThen_skip, Option.map_some, Option.getD_some]

theorem Stmt.runAll_append (ss ts : List Stmt) :
    Stmt.runAll D M c locals call bound (ss ++ ts) =
      (Stmt.runAll D M c locals call bound ss).andThen
        (Stmt.runAll D M c locals call bound ts) := by
  induction ss with
  | nil => rfl
  | cons s ss ih =>
    rw [List.cons_append, Stmt.runAll, Stmt.runAll, ih, Action.andThen_assoc]

/-- An empty chain is an empty block. -/
theorem Stmt.run_getD (s : Option Stmt) :
    (s.getD (.block [])).run D M c locals call bound = Stmt.runElse D M c locals call bound s := by
  cases s with
  | none => rfl
  | some s => rfl

end

namespace Class
variable (D : Values V) (M : Meaning V) (c : Class)

def call : Nat → String → Action (Store V) V
  | 0, _ => .stop .exhausted
  | n + 1, name =>
    match c.privateMethod? name with
    | some m => Stmt.runAll D M c (fun _ => none) (call n) n m.body
    | none => .stop .failed

/-- Runs the public entry method on arguments given by name. -/
def run (arguments : String → V) (bound : Nat) : Action (Store V) V :=
  match c.publicMethod? entryName with
  | some m => Stmt.runAll D M c (m.locals arguments) (c.call D M bound) bound m.body
  | none => .stop .failed

end Class

end RpgLowering.Target
