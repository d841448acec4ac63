import RpgLowering.Real.Binary64

/-! Java classes as trees: the constructs that generated programs use. -/
namespace RpgLowering.Target

inductive Ty where
  | long
  | double
  | boolean
  | void
  /-- A fully qualified class, such as `java.lang.String`. -/
  | named (name : String)
  deriving DecidableEq, Inhabited

inductive Modifier where
  | pub
  | priv
  | static
  | final
  deriving DecidableEq

inductive BinaryOp where
  | plus
  | equals
  | atMost
  deriving DecidableEq

inductive Expr where
  | int (value : Int64)
  | double (value : Binary64)
  | string (value : String)
  | this
  /-- A simple or qualified name, such as `X` or `java.lang.System.out`. -/
  | name (text : String)
  | field (scope : Expr) (name : String)
  | assign (target value : Expr)
  | binary (op : BinaryOp) (left right : Expr)
  | increment (operand : Expr)
  | call (scope : Option Expr) (name : String) (args : List Expr)
  deriving Inhabited

/-- `this.name` -/
def Expr.thisField (name : String) : Expr := .field .this name

inductive Stmt where
  | expr (e : Expr)
  | branch (condition : Expr) (thenDo : Stmt) (elseDo : Option Stmt)
  | loop (init : List Expr) (test : Option Expr) (update : List Expr) (body : Stmt)
  | block (stmts : List Stmt)
  deriving Inhabited

def Stmt.isBranch : Stmt → Bool
  | .branch .. => true
  | _ => false

structure Parameter where
  ty : Ty
  name : String
  deriving DecidableEq

structure Field where
  modifiers : List Modifier := [.priv]
  ty : Ty
  name : String
  initializer : Option Expr := none

structure Method where
  modifiers : List Modifier
  returns : Ty := .void
  name : String
  parameters : List Parameter := []
  body : List Stmt := []

structure Class where
  modifiers : List Modifier := [.pub]
  name : String
  fields : List Field := []
  methods : List Method := []

namespace Class

def method? (c : Class) (name : String) : Option Method :=
  c.methods.find? (·.name == name)

def field? (c : Class) (name : String) : Option Field :=
  c.fields.find? (·.name == name)

end Class

structure SourceFile where
  classes : List Class

end RpgLowering.Target
