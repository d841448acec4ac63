import RpgLowering.Failure

/-! Why a run of the command ends without output. -/
namespace RpgLowering

inductive CommandError where
  | missingInput (path : String)
  | notAFile (path : String)
  | badName (name : String)
  | badDefaultName (name : String)
  | settingsUnreadable (path : String)
  | settingsMalformed (path reason : String)
  | failed (f : Failure)
  deriving DecidableEq, Repr

namespace CommandError

def isInvalidInput : CommandError → Bool
  | missingInput _ | notAFile _ | badName _ => true
  | _ => false

/-- The message without the kind of the error. -/
def detail : CommandError → String
  | missingInput path => path ++ " does not exist"
  | notAFile path => path ++ " is not a regular file"
  | badName name => "`" ++ name ++ "` is not a valid class name"
  | badDefaultName name =>
    "translation.default_name `" ++ name ++ "` is not a valid class name"
  | settingsUnreadable path => "Failed to read config file " ++ path
  | settingsMalformed path reason => "Failed to parse config file " ++ path ++ ": " ++ reason
  | failed f => f.message

def message (e : CommandError) : String :=
  match e with
  | missingInput _ | notAFile _ | badName _ => "Invalid input: " ++ e.detail
  | badDefaultName _ | settingsUnreadable _ | settingsMalformed .. =>
    "Configuration error: " ++ e.detail
  | failed _ => e.detail

end CommandError

end RpgLowering
