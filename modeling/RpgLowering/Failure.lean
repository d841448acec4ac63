import RpgLowering.Span

/-! Why a program cannot be lowered or shown. A run reports exactly one failure, the first. -/
namespace RpgLowering

/-- Bounds of the machine that end a run without a report. -/
inductive Limit where
  /-- The digits of a number type add up to 2^32 or more. -/
  | digitCount
  /-- A line would start beyond the widest indentation. -/
  | indentation
  deriving DecidableEq, Repr

inductive Failure where
  /-- No lowering rule covers the construct. -/
  | unsupported (construct : String) (span : Option Span)
  /-- The construct is covered, but not in this form. -/
  | shape (construct reason : String) (span : Option Span)
  /-- A reference is bound to no declaration. -/
  | unresolved (name : String) (span : Option Span)
  | generic (text : String)
  | aborted (limit : Limit)
  deriving DecidableEq, Repr

namespace Failure

def located : Option Span → String
  | some s => " at " ++ s.text
  | none => ""

def message : Failure → String
  | unsupported c s => "Unsupported construct: " ++ c ++ located s
  | shape c r s => "Unsupported shape of " ++ c ++ ": " ++ r ++ located s
  | unresolved n s => "Unresolved reference: " ++ n ++ located s
  | generic t => "Generic error: " ++ t
  | aborted .digitCount => "digit count out of range"
  | aborted .indentation => "indentation out of range"

/-- A construct in an uncovered form counts as unsupported. -/
def isUnsupported : Failure → Bool
  | unsupported .. | shape .. => true
  | _ => false

def isUnresolved : Failure → Bool
  | unresolved .. => true
  | _ => false

def span : Failure → Option Span
  | unsupported _ s | shape _ _ s | unresolved _ s => s
  | generic _ | aborted _ => none

/-- Gives a position to a failure that has none yet. -/
def orAt (f : Failure) (fallback : Option Span) : Failure :=
  match f with
  | unsupported c s => unsupported c (s <|> fallback)
  | shape c r s => shape c r (s <|> fallback)
  | unresolved n s => unresolved n (s <|> fallback)
  | generic t => generic t
  | aborted l => aborted l

@[simp] theorem orAt_of_span_eq_some {f : Failure} {s : Span} (h : f.span = some s)
    (t : Option Span) : f.orAt t = f := by
  cases f <;> simp_all [span, orAt]

end Failure

/-- How a failure is presented on the command line. -/
structure Diagnostic where
  code : String
  text : String
  help : String
  deriving DecidableEq, Repr

/-- Failures outside the lowering itself have no diagnostic. -/
def Failure.diagnostic (f : Failure) : Option Diagnostic :=
  match f with
  | unsupported .. => some
    { code := "rj::unsupported", text := f.message,
      help := "This construct has no Java translation yet; rewrite it with supported operations" }
  | shape .. => some
    { code := "rj::shape", text := f.message,
      help := "The construct is known, but only simpler forms of it can be translated" }
  | unresolved .. => some
    { code := "rj::unresolved", text := f.message,
      help := "Check that the resolver bound every name in the input to a declaration" }
  | generic _ | aborted _ => none

end RpgLowering
