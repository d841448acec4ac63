import RpgLowering.Core.Dump
import RpgLowering.Core.OfSource
import RpgLowering.Target.OfCore
import RpgLowering.Target.Print

/-! A source unit lowered and written out, as a class or as the program before it. -/
namespace RpgLowering

inductive Emit where
  | java
  | ir
  deriving DecidableEq, Repr

structure Layout where
  indent : Nat := 4
  showTypes : Bool := false
  deriving DecidableEq, Repr

def Core.Program.java (p : Core.Program) (indent : Nat) : Except Failure String := do
  let file ← Target.SourceFile.ofCore p
  file.print indent

/-- Writes the program of a unit under a name. -/
def Emit.text (e : Emit) (layout : Layout) (name : String) (u : Source.CompilationUnit) :
    Except Failure String := do
  let p ← Core.Program.ofSource name u
  match e with
  | .java => p.java layout.indent
  | .ir => p.dump layout.indent layout.showTypes

end RpgLowering
