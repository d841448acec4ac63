import RpgLowering.Document.Print

/-! The log of a run: records with a level, of which those up to a threshold are written. -/
namespace RpgLowering.Command

inductive LogLevel where
  | error
  | warn
  | info
  | debug
  | trace
  deriving DecidableEq, Repr

inductive LogFormat where
  | pretty
  | json
  deriving DecidableEq, Repr

namespace LogLevel

/-- Later levels say more. -/
def rank : LogLevel → Nat
  | error => 0
  | warn => 1
  | info => 2
  | debug => 3
  | trace => 4

def name : LogLevel → String
  | error => "ERROR"
  | warn => "WARN"
  | info => "INFO"
  | debug => "DEBUG"
  | trace => "TRACE"

/-- The level that a number of `-v` asks for. -/
def ofVerbosity : Nat → LogLevel
  | 0 => warn
  | 1 => info
  | 2 => debug
  | _ => trace

end LogLevel

structure LogRecord where
  level : LogLevel
  text : String
  deriving DecidableEq, Repr

namespace LogRecord

def line (format : LogFormat) (r : LogRecord) : String :=
  match format with
  | .pretty => r.level.name ++ " " ++ r.text ++ "\n"
  | .json =>
    Document.print .compact
      (.object [(some "level", .string (some r.level.name)),
        (some "message", .string (some r.text))]) ++ "\n"

/-- The lines of the records that a threshold lets through. -/
def lines (threshold : LogLevel) (format : LogFormat) (rs : List LogRecord) : String :=
  String.join ((rs.filter fun r => r.level.rank ≤ threshold.rank).map (line format))

end LogRecord

end RpgLowering.Command
