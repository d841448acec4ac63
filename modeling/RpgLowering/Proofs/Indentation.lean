import RpgLowering.Core.Dump
import RpgLowering.Proofs.Margin
import RpgLowering.Target.Print

/-! Programs and classes printed with a margin, line after line. The lines and their levels do not
depend on the indentation, the margin is restored behind every body, and only the width of a line can
stop the printer. -/
namespace RpgLowering.Core
open Text

/-! ### Programs -/

section
variable (p : Program) (size : UInt64)

mutual

def Stmt.printer : Stmt → Printer
  | .assign target value => line (p.globalText target ++ " := " ++ value.text p)
  | .reset target => line ("reset " ++ p.globalText target)
  | .call f => line ("call " ++ p.functionText f ++ "()")
  | .print value => line ("print " ++ value.text p)
  | .switch cases default? =>
    line "switch \x7b" >=>
      deeper size (Stmt.casePrinters cases >=> Stmt.defaultPrinter default?) >=> line "\x7d"
  | .loop counter low high body =>
    line ("for " ++ p.globalText counter ++ " in " ++ low.text p ++ "..=" ++ high.text p ++
      " \x7b") >=> deeper size (Stmt.printers body) >=> line "\x7d"

def Stmt.printers : List Stmt → Printer
  | [] => .ok
  | s :: ss => s.printer >=> Stmt.printers ss

def Stmt.casePrinters : List (Expr × List Stmt) → Printer
  | [] => .ok
  | (condition, body) :: cases =>
    line ("case " ++ condition.text p ++ " \x7b") >=> deeper size (Stmt.printers body) >=>
      line "\x7d" >=> Stmt.casePrinters cases

def Stmt.defaultPrinter : Option (List Stmt) → Printer
  | none => .ok
  | some body => line "else \x7b" >=> deeper size (Stmt.printers body) >=> line "\x7d"

end

def Function.printer (showTypes : Bool) (f : Function) : Printer :=
  line ("fn " ++ f.name ++ "(" ++
    String.intercalate ", " (f.parameters.map (Parameter.text showTypes)) ++ ") \x7b") >=>
    deeper size (Stmt.printers p size f.body) >=> line "\x7d"

def Program.printer (showTypes : Bool) : Printer :=
  line ("ir::Program " ++ p.name ++ " \x7b") >=>
    deeper size (each (fun g => line (Global.line p showTypes g).text) p.globals >=>
      each (Function.printer p size showTypes) (p.main :: p.functions)) >=>
    line "\x7d"

end

section
variable {p : Program} {size : UInt64}

mutual

theorem prints_stmt (s : Stmt) (level : Nat) :
    Prints size level (s.printer p size) (s.lines p level) := by
  match s with
  | .assign .. | .reset _ | .call _ | .print _ => exact prints_line _
  | .switch cases default? =>
    exact ((prints_cases cases (level + 1)).append (prints_default default? (level + 1))).braced
      (prints_line _) _
  | .loop _ _ _ body => exact (prints_stmts body (level + 1)).braced (prints_line _) _

theorem prints_stmts (ss : List Stmt) (level : Nat) :
    Prints size level (Stmt.printers p size ss) (Stmt.linesOf p level ss) := by
  match ss with
  | [] => exact prints_ok
  | s :: ss => exact (prints_stmt s level).append (prints_stmts ss level)

theorem prints_cases (cases : List (Expr × List Stmt)) (level : Nat) :
    Prints size level (Stmt.casePrinters p size cases) (Stmt.caseLines p level cases) := by
  match cases with
  | [] => exact prints_ok
  | (_, body) :: cases =>
    exact (prints_stmts body (level + 1)).braced
      ((prints_line _).append (prints_cases cases level)) _

theorem prints_default (default? : Option (List Stmt)) (level : Nat) :
    Prints size level (Stmt.defaultPrinter p size default?) (Stmt.defaultLines p level default?) := by
  match default? with
  | none => exact prints_ok
  | some body => exact (prints_stmts body (level + 1)).braced (prints_line _) _

end

theorem prints_function (showTypes : Bool) (f : Function) :
    Prints size 1 (f.printer p size showTypes) (f.lines p showTypes) :=
  (prints_stmts f.body 2).braced (prints_line _) _

theorem prints_program (showTypes : Bool) (p : Program) :
    Prints size 0 (p.printer size showTypes) (p.lines showTypes) := by
  have hglobals : Prints size 1 (each (fun g => line (Global.line p showTypes g).text) p.globals)
      (p.globals.map (Global.line p showTypes)) := by
    rw [List.map_eq_flatMap]
    exact prints_each (fun g => prints_line _) p.globals
  have hfunctions : Prints size 1 (each (Function.printer p size showTypes) (p.main :: p.functions))
      ((p.main :: p.functions).flatMap (Function.lines p showTypes)) :=
    prints_each (prints_function showTypes) (p.main :: p.functions)
  exact (hglobals.append hfunctions).braced (prints_line _) _

end

end RpgLowering.Core

namespace RpgLowering.Target
open Text

/-! ### Classes -/

section
variable (size : UInt64)

mutual

def Stmt.printer (place : Place) : Stmt → Printer
  | .expr e => line (e.text ++ ";")
  | .block stmts =>
    match place with
    | .braced => Stmt.printers stmts
    | _ => line "\x7b" >=> deeper size (Stmt.printers stmts) >=> line "\x7d"
  | .branch condition thenDo elseDo =>
    line (place.lead ++ "if (" ++ condition.text ++ ") \x7b") >=>
      deeper size (thenDo.printer .braced) >=> Stmt.elsePrinter elseDo
  | .loop init test update body =>
    line ("for (" ++ commaSeparated (init.map Expr.text) ++ "; " ++
      (test.map Expr.text).getD "" ++ "; " ++ commaSeparated (update.map Expr.text) ++ ") \x7b") >=>
      deeper size (body.printer .braced) >=> line "\x7d"

/-- An `if` behind an `else` stays on the level of the first one. -/
def Stmt.elsePrinter : Option Stmt → Printer
  | none => line "\x7d"
  | some s =>
    if s.isBranch then s.printer .chained
    else line "\x7d else \x7b" >=> deeper size (s.printer .braced) >=> line "\x7d"

def Stmt.printers : List Stmt → Printer
  | [] => .ok
  | s :: ss => s.printer .listed >=> Stmt.printers ss

end

def Method.printer (m : Method) : Printer :=
  line (modifiersText m.modifiers ++ m.returns.text ++ " " ++ m.name ++ "(" ++
    commaSeparated (m.parameters.map Parameter.text) ++ ") \x7b") >=>
    deeper size (Stmt.printers size m.body) >=> line "\x7d"

def Class.printer (c : Class) : Printer :=
  line (modifiersText c.modifiers ++ "class " ++ c.name ++ " \x7b") >=>
    deeper size (each (fun f => line (Field.line f).text) c.fields >=>
      eachSpaced (Method.printer size) c.fields.isEmpty c.methods) >=>
    line "\x7d"

def SourceFile.printer (f : SourceFile) : Printer := eachSpaced (Class.printer size) true f.classes

end

section
variable {size : UInt64}

mutual

theorem prints_stmt (s : Stmt) (level : Nat) (place : Place) :
    Prints size level (s.printer size place) (s.lines level place) := by
  match s with
  | .expr _ => exact prints_line _
  | .block ss =>
    cases place with
    | braced => exact prints_stmts ss level
    | listed | chained => exact (prints_stmts ss (level + 1)).braced (prints_line _) _
  | .branch _ thenDo elseDo =>
    exact (prints_stmt thenDo (level + 1) .braced).braced (prints_else elseDo level) _
  | .loop _ _ _ body => exact (prints_stmt body (level + 1) .braced).braced (prints_line _) _

theorem prints_else (elseDo : Option Stmt) (level : Nat) :
    Prints size level (Stmt.elsePrinter size elseDo) (Stmt.elseLines level elseDo) := by
  match elseDo with
  | none => exact prints_line _
  | some s =>
    rw [Stmt.elsePrinter, Stmt.elseLines]
    split
    · exact prints_stmt s level .chained
    · exact (prints_stmt s (level + 1) .braced).braced (prints_line _) _

theorem prints_stmts (ss : List Stmt) (level : Nat) :
    Prints size level (Stmt.printers size ss) (Stmt.linesOf level ss) := by
  match ss with
  | [] => exact prints_ok
  | s :: ss => exact (prints_stmt s level .listed).append (prints_stmts ss level)

end

theorem prints_method (m : Method) : Prints size 1 (m.printer size) m.lines :=
  (prints_stmts m.body 2).braced (prints_line _) _

theorem spaced_cons (g : List Line) (gs : List (List Line)) :
    spaced (g :: gs) = g ++ gs.flatMap (Line.blank :: ·) := by
  induction gs generalizing g with
  | nil => simp [spaced]
  | cons g' gs ih =>
    rw [spaced, ih g', List.flatMap_cons, List.cons_append]
    exact nofun

/-- Members with empty lines between them. -/
theorem prints_spaced {α : Type} {level : Nat} {w : α → Printer} {lines : α → List Line}
    (h : ∀ a, Prints size level (w a) (lines a)) (as : List α) :
    Prints size level (eachSpaced w true as) (spaced (as.map lines)) := by
  cases as with
  | nil => exact prints_ok
  | cons a as =>
    rw [List.map_cons, spaced_cons, List.flatMap_map]
    exact prints_ok.append ((h a).append (prints_eachSpaced h as))

theorem prints_class (c : Class) : Prints size 0 (c.printer size) c.lines := by
  have hfields : Prints size 1 (each (fun f => line (Field.line f).text) c.fields)
      (c.fields.map Field.line) := by
    rw [List.map_eq_flatMap]
    exact prints_each (fun f => prints_line _) c.fields
  have hmembers : Prints size 1 (each (fun f => line (Field.line f).text) c.fields >=>
      eachSpaced (Method.printer size) c.fields.isEmpty c.methods)
      (spaced ((if (c.fields.map Field.line).isEmpty then [] else [c.fields.map Field.line]) ++
        c.methods.map Method.lines)) := by
    cases hempty : c.fields.isEmpty with
    | true =>
      rw [List.isEmpty_iff.mp hempty] at hfields ⊢
      exact hfields.append (prints_spaced prints_method c.methods)
    | false =>
      rw [List.isEmpty_map, hempty]
      simp only [Bool.false_eq_true, if_false, List.singleton_append, spaced_cons,
        List.flatMap_map]
      exact hfields.append (prints_eachSpaced prints_method c.methods)
  exact hmembers.braced (prints_line _) _

theorem prints_file (f : SourceFile) : Prints size 0 (f.printer size) f.lines :=
  prints_spaced prints_class f.classes

end

end RpgLowering.Target

namespace RpgLowering
open Text

/-- Indentation only adds spaces in front of lines, and only the widest line limits it. A program and
a class file have lines with levels that do not depend on the indentation. If all of them fit, the
text consists of them, each behind its level times the indentation; otherwise the printer stops at a
line that is too wide, and never at the addition of margins. A body gives back every margin. -/
theorem printing_only_indents (size : UInt64) :
    (∀ (p : Core.Program) (showTypes : Bool),
      p.printer size showTypes {} =
        (if ∀ l ∈ p.lines showTypes, l.level * size.toNat ≤ 65535 then
          .ok { text := String.join ((p.lines showTypes).map (Line.indented size.toNat)) }
        else .error .width) ∧
      p.dump size.toNat showTypes = printed (p.printer size showTypes {}) ∧
      ∀ stmts page page', deeper size (Core.Stmt.printers p size stmts) page = .ok page' →
        page'.margin = page.margin) ∧
    ∀ f : Target.SourceFile,
      f.printer size {} =
        (if ∀ l ∈ f.lines, l.level * size.toNat ≤ 65535 then
          .ok { text := String.join (f.lines.map (Line.indented size.toNat)) }
        else .error .width) ∧
      f.print size.toNat = printed (f.printer size {}) ∧
      ∀ s place page page', deeper size (Target.Stmt.printer size place s) page = .ok page' →
        page'.margin = page.margin := by
  constructor
  · intro p showTypes
    have hprints : Prints size 0 (p.printer size showTypes) (p.lines showTypes) :=
      Core.prints_program showTypes p
    obtain ⟨htext, hdump⟩ := hprints.whole
    refine ⟨htext, hdump, ?_⟩
    intro stmts
    exact keeps_deeper (Core.prints_stmts stmts 0).keeps
  · intro f
    have hprints : Prints size 0 (f.printer size) f.lines := Target.prints_file f
    obtain ⟨htext, hprint⟩ := hprints.whole
    refine ⟨htext, hprint, ?_⟩
    intro s place
    exact keeps_deeper (Target.prints_stmt s 0 place).keeps

end RpgLowering
