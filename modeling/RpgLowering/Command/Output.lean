import RpgLowering.Command.Arguments
import RpgLowering.Command.ClassName
import RpgLowering.Command.Files
import RpgLowering.Settings.Text
import RpgLowering.Source.Read

/-! What a run of the command works on and gives: settings first, then the input, its class name and
its content. -/
namespace RpgLowering.Command

/-! ### Settings -/

def localSettings : String := "rj.toml"

def settingsIn (files : Files) (path : String) : Except CommandError Settings :=
  match files path with
  | .file content =>
    match String.fromUTF8? content with
    | none => .error (.settingsUnreadable path)
    | some text =>
      match Settings.ofText text with
      | .ok s => .ok s
      | .error reason => .error (.settingsMalformed path reason)
  | _ => .error (.settingsUnreadable path)

def isFile (files : Files) (path : String) : Bool :=
  match files path with
  | .file _ => true
  | _ => false

/-- The given settings file, else the first of the usual ones that is there. -/
def settingsPath? (files : Files) (user given : Option String) : Option String :=
  match given with
  | some path => some path
  | none => ([localSettings] ++ user.toList).find? (isFile files)

/-- The settings of a run; without a file they are the defaults. -/
def settings (files : Files) (user given : Option String) : Except CommandError Settings :=
  match settingsPath? files user given with
  | some path => settingsIn files path
  | none => .ok {}

/-! ### The input -/

def inputContent (files : Files) (path : String) : Except CommandError ByteArray :=
  match files path with
  | .nothing => .error (.missingInput path)
  | .directory => .error (.notAFile path)
  | .file content => .ok content

/-- The given name, which has to be an identifier, or that of the input. -/
def chosenName (s : Settings) (given : Option String) (path : String) :
    Except CommandError String :=
  match given with
  | some name => if isIdentifier name then .ok name else .error (.badName name)
  | none => className s path

def lifted {α : Type} : Except Failure α → Except CommandError α
  | .ok a => .ok a
  | .error f => .error (.failed f)

/-- The text that the arguments ask for. -/
def output (files : Files) (a : Arguments) (s : Settings) : Except CommandError String := do
  let content ← inputContent files a.input
  let name ← chosenName s a.name a.input
  let u ← lifted (Source.CompilationUnit.loadBytes content)
  lifted (a.emit.text { indent := s.indentSize } name u)

end RpgLowering.Command
