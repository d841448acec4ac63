import RpgLowering.Target.Tree
import RpgLowering.Real.Style
import RpgLowering.Text.Quoted
import RpgLowering.Text.Layout

/-! Java source text. Parentheses stand exactly where an operand binds less tightly than its
place demands. -/
namespace RpgLowering.Target
open Text

def Ty.text : Ty → String
  | long => "long"
  | double => "double"
  | boolean => "boolean"
  | void => "void"
  | named n => n

def Modifier.text : Modifier → String
  | pub => "public"
  | priv => "private"
  | static => "static"
  | final => "final"

def modifiersText (ms : List Modifier) : String :=
  String.join (ms.map fun m => m.text ++ " ")

def BinaryOp.text : BinaryOp → String
  | plus => "+"
  | equals => "=="
  | atMost => "<="

namespace Precedence

def assignment : Nat := 1
def minusSign : Nat := 14
def postfixed : Nat := 15
def primary : Nat := 16

end Precedence

def BinaryOp.precedence : BinaryOp → Nat
  | equals => 8
  | atMost => 9
  | plus => 11

/-- A literal with a minus sign binds like a sign in front of a literal. -/
def Expr.precedence : Expr → Nat
  | int v => if v < 0 then Precedence.minusSign else Precedence.primary
  | double x =>
    if x.isNegative && x.isFinite then Precedence.minusSign else Precedence.primary
  | assign .. => Precedence.assignment
  | binary op .. => op.precedence
  | increment _ => Precedence.postfixed
  | string _ | this | name _ | field .. | call .. => Precedence.primary

/-- A literal beyond 32 bits has the suffix of a long. -/
def intText (v : Int64) : String :=
  if -0x80000000 ≤ v.toInt ∧ v.toInt < 0x80000000 then toString v.toInt
  else toString v.toInt ++ "L"

def doubleText (x : Binary64) : String :=
  if x.isNaN then "java.lang.Double.NaN"
  else if x.isInfinite then
    (if x.isNegative then "java.lang.Double.NEGATIVE_INFINITY"
     else "java.lang.Double.POSITIVE_INFINITY")
  else NumberStyle.listing.text x

/-- The text of an operand in a place that demands at least the precedence `least`. -/
def wrap (least : Nat) (e : Expr) (text : String) : String :=
  if e.precedence < least then "(" ++ text ++ ")" else text

def commaSeparated (texts : List String) : String := String.intercalate ", " texts

mutual

def Expr.text : Expr → String
  | .int v => intText v
  | .double x => doubleText x
  | .string s => quote s
  | .this => "this"
  | .name n => n
  | .field scope n => wrap Precedence.primary scope scope.text ++ "." ++ n
  | .assign target value =>
    wrap Precedence.primary target target.text ++ " = " ++
      wrap Precedence.assignment value value.text
  | .binary op left right =>
    wrap op.precedence left left.text ++ " " ++ op.text ++ " " ++
      wrap (op.precedence + 1) right right.text
  | .increment e => wrap Precedence.primary e e.text ++ "++"
  | .call (some scope) n args =>
    wrap Precedence.primary scope scope.text ++ "." ++ n ++
      "(" ++ commaSeparated (Expr.texts args) ++ ")"
  | .call none n args => n ++ "(" ++ commaSeparated (Expr.texts args) ++ ")"

def Expr.texts : List Expr → List String
  | [] => []
  | e :: es => e.text :: Expr.texts es

end

theorem Expr.texts_eq_map (es : List Expr) : Expr.texts es = es.map Expr.text := by
  induction es with
  | nil => rfl
  | cons e es ih => simp [Expr.texts, ih]

/-- Where a statement stands: in a list, as the whole of a braced body, or after an `else`. -/
inductive Place where
  | listed
  | braced
  | chained
  deriving DecidableEq

def Place.lead : Place → String
  | .chained => "\x7d else "
  | .listed | .braced => ""

mutual

def Stmt.lines (level : Nat) (place : Place) : Stmt → List Line
  | .expr e => [⟨level, e.text ++ ";"⟩]
  | .block stmts =>
    match place with
    | .braced => Stmt.linesOf level stmts
    | _ => ⟨level, "\x7b"⟩ :: (Stmt.linesOf (level + 1) stmts ++ [⟨level, "\x7d"⟩])
  | .branch condition thenDo elseDo =>
    ⟨level, place.lead ++ "if (" ++ condition.text ++ ") \x7b"⟩ ::
      (thenDo.lines (level + 1) .braced ++ Stmt.elseLines level elseDo)
  | .loop init test update body =>
    ⟨level, "for (" ++ commaSeparated (init.map Expr.text) ++ "; " ++
      (test.map Expr.text).getD "" ++ "; " ++ commaSeparated (update.map Expr.text) ++ ") \x7b"⟩ ::
      (body.lines (level + 1) .braced ++ [⟨level, "\x7d"⟩])

/-- What follows the body of an `if`: an `if` after `else` continues the chain. -/
def Stmt.elseLines (level : Nat) : Option Stmt → List Line
  | none => [⟨level, "\x7d"⟩]
  | some s =>
    if s.isBranch then s.lines level .chained
    else ⟨level, "\x7d else \x7b"⟩ :: (s.lines (level + 1) .braced ++ [⟨level, "\x7d"⟩])

def Stmt.linesOf (level : Nat) : List Stmt → List Line
  | [] => []
  | s :: ss => s.lines level .listed ++ Stmt.linesOf level ss

end

def Parameter.text (p : Parameter) : String := p.ty.text ++ " " ++ p.name

def Field.line (f : Field) : Line :=
  let init := match f.initializer with
    | some e => " = " ++ e.text
    | none => ""
  ⟨1, modifiersText f.modifiers ++ f.ty.text ++ " " ++ f.name ++ init ++ ";"⟩

def Method.lines (m : Method) : List Line :=
  ⟨1, modifiersText m.modifiers ++ m.returns.text ++ " " ++ m.name ++ "(" ++
    commaSeparated (m.parameters.map Parameter.text) ++ ") \x7b"⟩ ::
    (Stmt.linesOf 2 m.body ++ [⟨1, "\x7d"⟩])

/-- Joins groups of lines, with a blank line between two of them. -/
def spaced : List (List Line) → List Line
  | [] => []
  | [g] => g
  | g :: gs => g ++ Line.blank :: spaced gs

def Class.lines (c : Class) : List Line :=
  let fields := c.fields.map Field.line
  let groups := (if fields.isEmpty then [] else [fields]) ++ c.methods.map Method.lines
  ⟨0, modifiersText c.modifiers ++ "class " ++ c.name ++ " \x7b"⟩ ::
    (spaced groups ++ [⟨0, "\x7d"⟩])

def SourceFile.lines (f : SourceFile) : List Line :=
  spaced (f.classes.map Class.lines)

def SourceFile.print (indent : Nat) (f : SourceFile) : Except Failure String :=
  render indent f.lines

end RpgLowering.Target
