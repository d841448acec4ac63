import RpgLowering.Command.Help
import RpgLowering.Command.Narration

/-! A run of the command, as a process shows it. -/
namespace RpgLowering.Command

structure Outcome where
  exit : UInt32 := 0
  stdout : String := ""
  stderr : String := ""
  deriving DecidableEq, Repr

def Stop.outcome : Stop → Outcome
  | .help detailed => { stdout := if detailed then manual else summary }
  | .version => { stdout := versionText }
  | .fault e =>
    { exit := 2
      stderr := "error: " ++ e.message ++ "\n\n" ++ usage ++
        "\n\nFor more information, try '--help'.\n" }

def Diagnostic.report (d : Diagnostic) : String :=
  d.code ++ "\n\n  × " ++ d.text ++ "\n  help: " ++ d.help ++ "\n"

/-- Invalid input is reported with the usage, a failure of the input with its diagnostic if it has
one, and anything else in the log. -/
def errorOutcome (format : LogFormat) (e : CommandError) : Outcome :=
  if e.isInvalidInput then { exit := 1, stderr := "error: " ++ e.detail ++ "\n\n" ++ usage ++ "\n" }
  else match e with
    | .failed (.aborted _) => { exit := 101, stderr := "aborted: " ++ e.message ++ "\n" }
    | .failed f =>
      { exit := 1
        stderr := match f.diagnostic with
          | some d => Diagnostic.report d
          | none => LogRecord.line format ⟨.error, e.message⟩ }
    | e => { exit := 1, stderr := LogRecord.line format ⟨.error, e.message⟩ }

def resultOutcome (format : LogFormat) : Except CommandError String → Outcome
  | .ok text => { stdout := text }
  | .error e => errorOutcome format e

/-- The outcome of the arguments read. The log comes before any report. -/
def run (files : Files) (user : Option String) (a : Arguments) : Outcome :=
  let outcome := resultOutcome a.logFormat (settings files user a.config >>= output files a)
  let log := LogRecord.lines a.threshold a.logFormat (narration files user a)
  { outcome with stderr := log ++ outcome.stderr }

/-- The outcome of a command line. -/
def commandLine (files : Files) (user : Option String) (as : List String) : Outcome :=
  match Arguments.read as with
  | .ok a => run files user a
  | .error stop => stop.outcome

end RpgLowering.Command
