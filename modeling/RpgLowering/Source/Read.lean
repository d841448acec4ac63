import RpgLowering.Source.CompilationUnit
import RpgLowering.Document.Read

/-! Source units from JSON documents. Each reader takes the room it has: the number of objects and
arrays that may still be opened. -/
namespace RpgLowering
open Document

def Point.read (room : Nat) : Reader Point :=
  inside room fun _ =>
    ((Record.required "line" readUInt32).and (Record.required "column" readUInt32)).readAs
      fun (line, column) => { line, column }

def Span.read (room : Nat) : Reader Span :=
  inside room fun room =>
    ((Record.required "start" (Point.read room)).and
      (Record.required "end" (Point.read room))).readAs fun (start, stop) => { start, stop }

namespace Source

def DataId.read : Reader DataId := fun d => (readUInt32 d).map DataId.mk

def SubroutineId.read : Reader SubroutineId := fun d => (readUInt32 d).map SubroutineId.mk

def Reference.read {ι : Type} (id : Reader ι) (room : Nat) : Reader (Reference ι) :=
  inside room fun _ =>
    ((Record.required "name" readString).and (Record.nullable "referred" id)).readAs
      fun (name, referred) => { name, referred }

def spanField (room : Nat) : Record (Option Span) := Record.optional "span" (Span.read room)

/-! ### Types -/

def Ty.readString (room : Nat) : Reader Ty :=
  inside room fun _ =>
    ((Record.required "length" readUInt32).and (Record.defaulted "varying" false readBool)).readAs
      fun (length, varying) => .string length varying

def Ty.readNumber (room : Nat) : Reader Ty :=
  inside room fun _ =>
    ((Record.required "entire_digits" readUInt32).and
      (Record.required "decimal_digits" readUInt32)).readAs
      fun (entire, decimals) => .number entire decimals

def Ty.readDataStructure (room : Nat) : Reader Ty :=
  inside room fun _ => (Record.required "elements_size" readUInt32).readAs .dataStructure

def Ty.variants (room : Nat) (array : Reader Ty) : List (Variant Ty) :=
  [ .holding "string" (Ty.readString room),
    .holding "number" (Ty.readNumber room),
    .plain "boolean" .boolean,
    .plain "timestamp" .timestamp,
    .holding "array" array,
    .holding "data_structure" (Ty.readDataStructure room) ]

mutual

def Ty.read : Nat → Reader Ty
  | 0 => readChoice false (Ty.variants 0 unreadable)
  | room + 1 => readChoice true (Ty.variants room (Ty.readArray room))

def Ty.readArray : Nat → Reader Ty
  | 0 => unreadable
  | room + 1 =>
    ((Record.required "element" (Ty.read room)).and
      (Record.required "n_elements" readUInt32)).readAs fun (element, count) => .array element count

end

/-! ### Expressions -/

/-- An expression that only lacks its span. -/
abbrev Unplaced (α : Type) := Option Span → α

/-- The kinds of expressions, given readers for what they hold. -/
def Expr.variants (room : Nat) (one : Reader Expr) (two : Reader (Expr × Expr))
    (assignment : Reader (Expr × Expr)) (dec : Reader (Expr × Expr × Expr)) :
    List (Variant (Unplaced Expr)) :=
  let binary (name : String) (op : BinaryOp) : Variant (Unplaced Expr) :=
    .holding name fun d => (two d).map fun (l, r) s => .binary s op l r
  let unary (name : String) (op : UnaryOp) : Variant (Unplaced Expr) :=
    .holding name fun d => (one d).map fun e s => .unary s op e
  [ .holding "int_literal" fun d => (readInt64 d).map fun v s => .int s v,
    .holding "real_literal" fun d => (readReal d).map fun x s => .real s x,
    .holding "string_literal" fun d => (readString d).map fun t s => .string s t,
    .holding "boolean_literal" fun d => (readBool d).map fun b s => .boolean s b,
    .holding "data_ref" fun d => (Reference.read DataId.read room d).map fun r s => .data s r,
    binary "plus" .plus,
    binary "minus" .minus,
    binary "mult" .mult,
    binary "div" .div,
    binary "equality" .equality,
    binary "different" .different,
    binary "less_than" .lessThan,
    binary "greater_than" .greaterThan,
    unary "not" .not,
    .holding "assignment" fun d => (assignment d).map fun (t, v) s => .assign s t v,
    .holding "dec" fun d => (dec d).map fun (v, i, p) s => .dec s v i p,
    unary "char" .char,
    unary "int" .int,
    unary "trim" .trim,
    unary "len" .len ]

mutual

def Expr.read : Nat → Reader Expr
  | 0 => unreadable
  | room + 1 =>
    ((Record.required "kind" (Expr.readKind room)).and (spanField room)).readAs
      fun (kind, span) => kind span

def Expr.readKind : Nat → Reader (Unplaced Expr)
  | 0 => readChoice false (Expr.variants 0 unreadable unreadable unreadable unreadable)
  | room + 1 =>
    readChoice true (Expr.variants room (Expr.read room) (Expr.readTwo room)
      (Expr.readAssignment room) (Expr.readDec room))

def Expr.readTwo : Nat → Reader (Expr × Expr)
  | 0 => unreadable
  | room + 1 => readPair (Expr.read room) (Expr.read room)

def Expr.readAssignment : Nat → Reader (Expr × Expr)
  | 0 => unreadable
  | room + 1 =>
    ((Record.required "target" (Expr.read room)).and
      (Record.required "value" (Expr.read room))).read

def Expr.readDec : Nat → Reader (Expr × Expr × Expr)
  | 0 => unreadable
  | room + 1 =>
    ((Record.required "value" (Expr.read room)).and
      ((Record.required "int_digits" (Expr.read room)).and
        (Record.required "decimal_places" (Expr.read room)))).read

end

/-! ### Statements -/

def ParameterList.readParameter (room : Nat) : Reader (Reference DataId) :=
  inside room fun room => (Record.required "param" (Reference.read DataId.read room)).read

def ParameterList.read (room : Nat) : Reader ParameterList :=
  inside room fun room =>
    ((Record.required "params"
      (inside room fun room => readItems (ParameterList.readParameter room))).and
      (Record.defaulted "is_entry" false readBool)).readAs
      fun (parameters, isEntry) => { parameters, isEntry }

def IndicatorValue.read (room : Nat) : Reader IndicatorValue :=
  readChoice (0 < room) [.plain "on" .on, .plain "off" .off]

/-- A target and the value it gets. -/
def readTransfer (room : Nat) : Reader (Expr × Expr) :=
  inside room fun room =>
    ((Record.required "target" (Expr.read room)).and
      (Record.required "expression" (Expr.read room))).read

def readExecute (room : Nat) : Reader (Reference SubroutineId) :=
  inside room fun room =>
    (Record.required "subroutine" (Reference.read SubroutineId.read room)).read

def readClear (room : Nat) : Reader Expr :=
  inside room fun room => (Record.required "value" (Expr.read room)).read

def readDisplay (room : Nat) : Reader (Option Expr × Option Expr) :=
  inside room fun room =>
    ((Record.optional "factor1" (Expr.read room)).and
      (Record.optional "response" (Expr.read room))).read

def readSet (room : Nat) : Reader (IndicatorValue × List String) :=
  inside room fun room =>
    ((Record.required "value_set" (IndicatorValue.read room)).and
      (Record.required "indicators" (inside room fun _ => readItems readString))).read

def readReturn (room : Nat) : Reader (Option Expr) :=
  inside room fun room => (Record.optional "expression" (Expr.read room)).read

/-- The kinds of statements, given readers for those that hold statements. -/
def Stmt.variants (room : Nat)
    (select loop branch doWhile : Reader (Unplaced Stmt)) : List (Variant (Unplaced Stmt)) :=
  [ .holding "plist" fun d => (ParameterList.read room d).map fun l s => .plist s l,
    .holding "eval" fun d => (readTransfer room d).map fun (t, v) s => .eval s t v,
    .holding "execute_subroutine" fun d => (readExecute room d).map fun r s => .execute s r,
    .holding "clear" fun d => (readClear room d).map fun t s => .clear s t,
    .holding "display" fun d => (readDisplay room d).map fun (f, r) s => .display s f r,
    .holding "set" fun d => (readSet room d).map fun (v, is) s => .set s v is,
    .holding "select" select,
    .holding "for" loop,
    .holding "if" branch,
    .holding "do_while" doWhile,
    .holding "move" fun d => (readTransfer room d).map fun (t, v) s => .move s t v,
    .holding "return" fun d => (readReturn room d).map fun v s => .ret s v,
    .plain "leave" fun s => .leave s,
    .plain "iter" fun s => .iterate s ]

mutual

def Stmt.read : Nat → Reader Stmt
  | 0 => unreadable
  | room + 1 =>
    ((Record.required "kind" (Stmt.readKind room)).and (spanField room)).readAs
      fun (kind, span) => kind span

def Stmt.readKind : Nat → Reader (Unplaced Stmt)
  | 0 => readChoice false (Stmt.variants 0 unreadable unreadable unreadable unreadable)
  | room + 1 =>
    readChoice true (Stmt.variants room (Stmt.readSelect room) (Stmt.readLoop room)
      (Stmt.readBranch room) (Stmt.readDoWhile room))

def Stmt.readBlock : Nat → Reader (List Stmt)
  | 0 => unreadable
  | room + 1 => readItems (Stmt.read room)

def Stmt.readCase : Nat → Reader (Expr × List Stmt)
  | 0 => unreadable
  | room + 1 =>
    ((Record.required "condition" (Expr.read room)).and
      (Record.required "body" (Stmt.readBlock room))).read

def Stmt.readCases : Nat → Reader (List (Expr × List Stmt))
  | 0 => unreadable
  | room + 1 => readItems (Stmt.readCase room)

def Stmt.readOther : Nat → Reader (List Stmt)
  | 0 => unreadable
  | room + 1 => (Record.required "body" (Stmt.readBlock room)).read

def Stmt.readSelect : Nat → Reader (Unplaced Stmt)
  | 0 => unreadable
  | room + 1 =>
    ((Record.required "cases" (Stmt.readCases room)).and
      (Record.optional "other" (Stmt.readOther room))).readAs
      fun (cases, other) s => .select s cases other

def Stmt.readLoop : Nat → Reader (Unplaced Stmt)
  | 0 => unreadable
  | room + 1 =>
    ((Record.required "init" (Expr.read room)).and
      ((Record.required "end_value" (Expr.read room)).and
        ((Record.optional "by_value" (Expr.read room)).and
          ((Record.defaulted "down_to" false readBool).and
            (Record.required "body" (Stmt.readBlock room)))))).readAs
      fun (init, limit, step, down, body) s => .loop s init limit step down body

def Stmt.readBranch : Nat → Reader (Unplaced Stmt)
  | 0 => unreadable
  | room + 1 =>
    ((Record.required "condition" (Expr.read room)).and
      ((Record.required "body" (Stmt.readBlock room)).and
        (Record.optional "else_body" (Stmt.readBlock room)))).readAs
      fun (condition, body, otherwise) s => .branch s condition body otherwise

def Stmt.readDoWhile : Nat → Reader (Unplaced Stmt)
  | 0 => unreadable
  | room + 1 =>
    ((Record.required "end_expression" (Expr.read room)).and
      (Record.required "body" (Stmt.readBlock room))).readAs
      fun (condition, body) s => .doWhile s condition body

end

/-! ### Units -/

def DataDefinition.read (room : Nat) : Reader DataDefinition :=
  inside room fun room =>
    ((Record.required "id" DataId.read).and
      ((Record.required "name" readString).and
        ((Record.required "type" (Ty.read room)).and
          ((Record.optional "initialization_value" (Expr.read room)).and
            (spanField room))))).readAs
      fun (id, name, ty, initial, span) => { id, name, ty, initial, span }

def InStatementDefinition.read (room : Nat) : Reader InStatementDefinition :=
  inside room fun room =>
    ((Record.required "id" DataId.read).and
      ((Record.required "name" readString).and
        ((Record.required "type" (Ty.read room)).and (spanField room)))).readAs
      fun (id, name, ty, span) => { id, name, ty, span }

def Subroutine.read (room : Nat) : Reader Subroutine :=
  inside room fun room =>
    ((Record.required "id" SubroutineId.read).and
      ((Record.required "name" readString).and
        ((Record.defaulted "stmts" [] (Stmt.readBlock room)).and (spanField room)))).readAs
      fun (id, name, stmts, span) => { id, name, stmts, span }

def readMain (room : Nat) : Reader (List Stmt) :=
  inside room fun room => (Record.defaulted "stmts" [] (Stmt.readBlock room)).read

namespace CompilationUnit

def read (room : Nat) : Reader CompilationUnit :=
  inside room fun room =>
    let list {α : Type} (item : Nat → Reader α) : Reader (List α) :=
      inside room fun room => readItems (item room)
    ((Record.defaulted "data_definitions" [] (list DataDefinition.read)).and
      ((Record.defaulted "in_statement_data_definitions" [] (list InStatementDefinition.read)).and
        ((Record.defaulted "subroutines" [] (list Subroutine.read)).and
          ((Record.defaulted "main" [] (readMain room)).and
            (Record.optional "entry_plist" (ParameterList.read room)))))).readAs
      fun (data, inStatement, subroutines, main, entry) =>
        { data, inStatement, subroutines, main, entry }

def load (text : String) : Except Failure CompilationUnit :=
  match readText (read deepest) text with
  | .ok u => .ok u
  | .error e => .error (.generic e.message)

/-- A file has to hold UTF-8 text. -/
def loadBytes (bytes : ByteArray) : Except Failure CompilationUnit :=
  match String.fromUTF8? bytes with
  | some text => load text
  | none => .error (.generic "the file is not valid UTF-8")

end CompilationUnit

end Source

end RpgLowering
