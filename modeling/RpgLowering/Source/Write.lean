import RpgLowering.Source.CompilationUnit
import RpgLowering.Document.Print
import RpgLowering.Real.Style

/-! JSON documents of source units. Fields stand in order; the span of a statement or expression
is left out when there is none, anything else that is absent is `null`. -/
namespace RpgLowering
open Document

namespace Document

def ofNat (n : Nat) : Document := .number (Nat.toDigits 10 n)

def ofUInt32 (n : UInt32) : Document := ofNat n.toNat

def ofInt (n : Int) : Document :=
  .number (if n < 0 then '-' :: Nat.toDigits 10 n.natAbs else Nat.toDigits 10 n.natAbs)

/-- Only finite numbers have a numeral. -/
def ofReal (x : Binary64) : Document :=
  if x.isFinite then .number (NumberStyle.document.finiteText x) else .null

def ofString (s : String) : Document := .string (some s)

def ofOption {α : Type} (f : α → Document) : Option α → Document
  | some a => f a
  | none => .null

def ofList {α : Type} (f : α → Document) (as : List α) : Document := .array (as.map f)

def ofMembers (ms : List (String × Document)) : Document :=
  .object (ms.map fun (key, d) => (some key, d))

/-- A variant with its content. -/
def tagged (name : String) (content : Document) : Document := ofMembers [(name, content)]

end Document

def Point.toDocument (p : Point) : Document :=
  ofMembers [("line", ofUInt32 p.line), ("column", ofUInt32 p.column)]

def Span.toDocument (s : Span) : Document :=
  ofMembers [("start", s.start.toDocument), ("end", s.stop.toDocument)]

namespace Source

def Reference.toDocument {ι : Type} (id : ι → UInt32) (r : Reference ι) : Document :=
  ofMembers [("name", ofString r.name), ("referred", ofOption (ofUInt32 ∘ id) r.referred)]

def dataReference (r : Reference DataId) : Document := r.toDocument DataId.val

def Ty.toDocument : Ty → Document
  | .string length varying =>
    tagged "string" (ofMembers [("length", ofUInt32 length), ("varying", .bool varying)])
  | .number entire decimals =>
    tagged "number"
      (ofMembers [("entire_digits", ofUInt32 entire), ("decimal_digits", ofUInt32 decimals)])
  | .boolean => ofString "boolean"
  | .timestamp => ofString "timestamp"
  | .array element count =>
    tagged "array" (ofMembers [("element", element.toDocument), ("n_elements", ofUInt32 count)])
  | .dataStructure size =>
    tagged "data_structure" (ofMembers [("elements_size", ofUInt32 size)])

/-- A node with its kind and, if there is one, its span. -/
def placed (span : Option Span) (kind : Document) : Document :=
  match span with
  | some s => ofMembers [("kind", kind), ("span", s.toDocument)]
  | none => ofMembers [("kind", kind)]

def BinaryOp.tag : BinaryOp → String
  | plus => "plus"
  | minus => "minus"
  | mult => "mult"
  | div => "div"
  | equality => "equality"
  | different => "different"
  | lessThan => "less_than"
  | greaterThan => "greater_than"

def UnaryOp.tag : UnaryOp → String
  | not => "not"
  | char => "char"
  | int => "int"
  | trim => "trim"
  | len => "len"

def Expr.toDocument : Expr → Document
  | .int s v => placed s (tagged "int_literal" (ofInt v.toInt))
  | .real s x => placed s (tagged "real_literal" (ofReal x))
  | .string s t => placed s (tagged "string_literal" (ofString t))
  | .boolean s b => placed s (tagged "boolean_literal" (.bool b))
  | .data s r => placed s (tagged "data_ref" (dataReference r))
  | .binary s op l r => placed s (tagged op.tag (.array [l.toDocument, r.toDocument]))
  | .unary s op e => placed s (tagged op.tag e.toDocument)
  | .assign s t v =>
    placed s (tagged "assignment" (ofMembers [("target", t.toDocument), ("value", v.toDocument)]))
  | .dec s v i p =>
    placed s (tagged "dec" (ofMembers
      [("value", v.toDocument), ("int_digits", i.toDocument), ("decimal_places", p.toDocument)]))

def ParameterList.toDocument (l : ParameterList) : Document :=
  ofMembers [
    ("params", ofList (fun r => ofMembers [("param", dataReference r)]) l.parameters),
    ("is_entry", .bool l.isEntry)]

def IndicatorValue.toDocument : IndicatorValue → Document
  | on => ofString "on"
  | off => ofString "off"

mutual

def Stmt.toDocument : Stmt → Document
  | .plist s l => placed s (tagged "plist" l.toDocument)
  | .eval s t v =>
    placed s (tagged "eval" (ofMembers [("target", t.toDocument), ("expression", v.toDocument)]))
  | .execute s r =>
    placed s (tagged "execute_subroutine"
      (ofMembers [("subroutine", r.toDocument SubroutineId.val)]))
  | .clear s t => placed s (tagged "clear" (ofMembers [("value", t.toDocument)]))
  | .display s f r =>
    placed s (tagged "display" (ofMembers
      [("factor1", ofOption Expr.toDocument f), ("response", ofOption Expr.toDocument r)]))
  | .set s v is =>
    placed s (tagged "set" (ofMembers
      [("value_set", v.toDocument), ("indicators", ofList ofString is)]))
  | .select s cases other =>
    placed s (tagged "select" (ofMembers
      [("cases", .array (Stmt.caseDocuments cases)), ("other", Stmt.otherDocument other)]))
  | .loop s init limit step down body =>
    placed s (tagged "for" (ofMembers
      [("init", init.toDocument), ("end_value", limit.toDocument),
        ("by_value", ofOption Expr.toDocument step), ("down_to", .bool down),
        ("body", .array (Stmt.documents body))]))
  | .branch s condition body otherwise =>
    placed s (tagged "if" (ofMembers
      [("condition", condition.toDocument), ("body", .array (Stmt.documents body)),
        ("else_body", Stmt.elseDocument otherwise)]))
  | .doWhile s condition body =>
    placed s (tagged "do_while" (ofMembers
      [("end_expression", condition.toDocument), ("body", .array (Stmt.documents body))]))
  | .move s t v =>
    placed s (tagged "move" (ofMembers [("target", t.toDocument), ("expression", v.toDocument)]))
  | .ret s v => placed s (tagged "return" (ofMembers [("expression", ofOption Expr.toDocument v)]))
  | .leave s => placed s (ofString "leave")
  | .iterate s => placed s (ofString "iter")

def Stmt.documents : List Stmt → List Document
  | [] => []
  | s :: ss => s.toDocument :: Stmt.documents ss

def Stmt.caseDocuments : List (Expr × List Stmt) → List Document
  | [] => []
  | (condition, body) :: cases =>
    ofMembers [("condition", condition.toDocument), ("body", .array (Stmt.documents body))] ::
      Stmt.caseDocuments cases

def Stmt.otherDocument : Option (List Stmt) → Document
  | none => .null
  | some body => ofMembers [("body", .array (Stmt.documents body))]

def Stmt.elseDocument : Option (List Stmt) → Document
  | none => .null
  | some body => .array (Stmt.documents body)

end

def DataDefinition.toDocument (d : DataDefinition) : Document :=
  ofMembers [("id", ofUInt32 d.id.val), ("name", ofString d.name), ("type", d.ty.toDocument),
    ("initialization_value", ofOption Expr.toDocument d.initial),
    ("span", ofOption Span.toDocument d.span)]

def InStatementDefinition.toDocument (d : InStatementDefinition) : Document :=
  ofMembers [("id", ofUInt32 d.id.val), ("name", ofString d.name), ("type", d.ty.toDocument),
    ("span", ofOption Span.toDocument d.span)]

def Subroutine.toDocument (s : Subroutine) : Document :=
  ofMembers [("id", ofUInt32 s.id.val), ("name", ofString s.name),
    ("stmts", .array (Stmt.documents s.stmts)), ("span", ofOption Span.toDocument s.span)]

namespace CompilationUnit

def toDocument (u : CompilationUnit) : Document :=
  ofMembers [("data_definitions", ofList DataDefinition.toDocument u.data),
    ("in_statement_data_definitions", ofList InStatementDefinition.toDocument u.inStatement),
    ("subroutines", ofList Subroutine.toDocument u.subroutines),
    ("main", ofMembers [("stmts", .array (Stmt.documents u.main))]),
    ("entry_plist", ofOption ParameterList.toDocument u.entry)]

def print (form : Form) (u : CompilationUnit) : String := u.toDocument.print form

end CompilationUnit

end Source

end RpgLowering
