import RpgLowering.Command.Run

/-! The command `rj`. -/
namespace RpgLowering.Command

/-- Looks at one path. -/
def look (path : String) : IO Found := do
  try
    let place ← IO.FS.realPath path
    if ← place.isDir then return .directory
    else return .file (← IO.FS.readBinFile place)
  catch _ => return .nothing

/-- The user's own settings file. -/
def userSettings : IO (Option String) := do
  match ← IO.getEnv "XDG_CONFIG_HOME" with
  | some dir => if dir.startsWith "/" then return some (dir ++ "/rj/config.toml")
  | none => pure ()
  match ← IO.getEnv "HOME" with
  | some home => return some (home ++ "/.config/rj/config.toml")
  | none => return none

/-- The paths that a run may look at. -/
def pathsOf (user : Option String) (a : Arguments) : List String :=
  [a.input, localSettings] ++ a.config.toList ++ user.toList

def runHere (a : Arguments) : IO Outcome := do
  let user ← userSettings
  let seen ← (pathsOf user a).mapM fun path => do return (path, ← look path)
  return run (fun path => (seen.lookup path).getD .nothing) user a

end RpgLowering.Command

open RpgLowering.Command in
def main (args : List String) : IO UInt32 := do
  let outcome ← match Arguments.read args with
    | .ok a => runHere a
    | .error stop => pure stop.outcome
  (← IO.getStdout).putStr outcome.stdout
  (← IO.getStderr).putStr outcome.stderr
  return outcome.exit
