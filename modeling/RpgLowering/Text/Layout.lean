import RpgLowering.Failure

/-! Printed text as lines, each with its nesting level. The size of one level is chosen only
when the lines are rendered. -/
namespace RpgLowering.Text

structure Line where
  level : Nat
  text : String
  deriving DecidableEq, Repr

/-- Separates two members; it has no indentation. -/
def Line.blank : Line := ⟨0, ""⟩

/-- The widest indentation a line can have, in spaces. -/
def widest : Nat := 65535

def spaces (n : Nat) : String := String.ofList (List.replicate n ' ')

def Line.indented (indent : Nat) (l : Line) : String :=
  spaces (l.level * indent) ++ l.text ++ "\n"

/-- All lines fit, or nothing is printed. -/
def render (indent : Nat) (lines : List Line) : Except Failure String :=
  if lines.all (fun l => l.level * indent ≤ widest) then
    .ok (String.join (lines.map (Line.indented indent)))
  else
    .error (.aborted .indentation)

end RpgLowering.Text
