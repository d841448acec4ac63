/-! Positions in the source listing, as the resolver reports them. -/
namespace RpgLowering

structure Point where
  line : UInt32
  column : UInt32
  deriving DecidableEq, Repr, Inhabited

structure Span where
  start : Point
  stop : Point
  deriving DecidableEq, Repr, Inhabited

def Point.text (p : Point) : String :=
  toString p.line.toNat ++ ":" ++ toString p.column.toNat

def Span.text (s : Span) : String :=
  s.start.text ++ "-" ++ s.stop.text

end RpgLowering
