import RpgLowering.Command.Error
import RpgLowering.Settings
import RpgLowering.Text.Case

/-! The class name of an input file. -/
namespace RpgLowering.Command

def isNameStart (c : Char) : Bool := c.isAlpha || c == '_' || c == '$'

def isNamePart (c : Char) : Bool := c.isAlphanum || c == '_' || c == '$'

def isIdentifierChars : List Char → Bool
  | [] => false
  | c :: cs => isNameStart c && cs.all isNamePart

def isIdentifier (s : String) : Bool := isIdentifierChars s.toList

/-- The parts of a path between slashes. -/
def pathParts (cs : List Char) : List (List Char) := cs.splitOn '/'

/-- The last part of a path that names something: empty parts and `.` at the end do not count,
and `..` names nothing of its own. -/
def fileName? (cs : List Char) : Option (List Char) :=
  match (pathParts cs).reverse.dropWhile (fun part => part == [] || part == ['.']) with
  | [] => none
  | part :: _ => if part == ['.', '.'] then none else some part

/-- A file name without its extension; a dot in front starts none. -/
def stem (name : List Char) : List Char :=
  match name.reverse.dropWhile (· != '.') with
  | [] => name
  | _ :: before => if before.isEmpty then name else before.reverse

def derivedName (path : String) : List Char :=
  match fileName? path.toList with
  | some name => Text.capitalize (stem name)
  | none => []

/-- The name derived from the file name if it is an identifier, else the default, which has to
be one. -/
def className (settings : Settings) (path : String) : Except CommandError String :=
  if isIdentifierChars (derivedName path) then .ok (String.ofList (derivedName path))
  else if isIdentifier settings.defaultName then .ok settings.defaultName
  else .error (.badDefaultName settings.defaultName)

end RpgLowering.Command
