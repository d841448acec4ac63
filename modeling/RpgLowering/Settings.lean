/-! What a user can set. -/
namespace RpgLowering

structure Settings where
  /-- Spaces per nesting level. -/
  indentSize : Nat := 4
  /-- The class name when neither the command line nor the file name gives one. -/
  defaultName : String := "Program"
  deriving DecidableEq, Repr, Inhabited

end RpgLowering
