import RpgLowering.Command.Log
import RpgLowering.Emit

/-! The command line. Arguments are read from the left, and the first fault, or the first request
for help or for the version, ends the reading. A value that is an argument of its own is checked
only after the next argument, so an argument that is not known there is the fault reported. -/
namespace RpgLowering.Command

structure Arguments where
  input : String
  name : Option String := none
  emit : Emit := .java
  verbosity : Nat := 0
  quiet : Bool := false
  log : Option LogLevel := none
  logFormat : LogFormat := .pretty
  config : Option String := none
  deriving DecidableEq, Repr

/-- How much of the log is written. A level given by name wins over `--quiet`, and that over the
number of `-v`. -/
def Arguments.threshold (a : Arguments) : LogLevel :=
  match a.log with
  | some level => level
  | none => if a.quiet then .error else .ofVerbosity a.verbosity

/-- Options that stand alone. -/
inductive Switch where
  | verbose
  | quiet
  | help
  | version
  deriving DecidableEq, Repr

/-- Options that take a value. -/
inductive Slot where
  | name
  | emit
  | log
  | logFormat
  | config
  deriving DecidableEq, Repr

inductive Opt where
  | switch (s : Switch)
  | slot (s : Slot)
  deriving DecidableEq, Repr

def Slot.usage : Slot → String
  | name => "--name <NAME>"
  | emit => "--emit <EMIT>"
  | log => "--log <LOG>"
  | logFormat => "--log-format <LOG_FORMAT>"
  | config => "--config <CONFIG>"

def Switch.usage : Switch → String
  | verbose => "--verbose..."
  | quiet => "--quiet"
  | help => "--help"
  | version => "--version"

def long? (name : String) : Option Opt :=
  match name with
  | "name" => some (.slot .name)
  | "emit" => some (.slot .emit)
  | "log" => some (.slot .log)
  | "log-format" => some (.slot .logFormat)
  | "config" => some (.slot .config)
  | "verbose" => some (.switch .verbose)
  | "quiet" => some (.switch .quiet)
  | "help" => some (.switch .help)
  | "version" => some (.switch .version)
  | _ => none

def short? (c : Char) : Option Opt :=
  match c with
  | 'c' => some (.slot .config)
  | 'v' => some (.switch .verbose)
  | 'q' => some (.switch .quiet)
  | 'h' => some (.switch .help)
  | 'V' => some (.switch .version)
  | _ => none

inductive ArgumentError where
  | unexpected (argument : String)
  | unexpectedValue (value option : String)
  | missingValue (option : String)
  | invalidValue (value option : String)
  | repeated (option : String)
  | missingInput
  deriving DecidableEq, Repr

def ArgumentError.message : ArgumentError → String
  | unexpected argument => "unexpected argument '" ++ argument ++ "' found"
  | unexpectedValue value option =>
    "unexpected value '" ++ value ++ "' for '" ++ option ++ "' found; no more were expected"
  | missingValue option => "a value is required for '" ++ option ++ "' but none was supplied"
  | invalidValue value option => "invalid value '" ++ value ++ "' for '" ++ option ++ "'"
  | repeated option => "the argument '" ++ option ++ "' cannot be used multiple times"
  | missingInput => "the following required arguments were not provided:\n  <INPUT>"

/-- Why reading ends early. -/
inductive Stop where
  | help (detailed : Bool)
  | version
  | fault (e : ArgumentError)
  deriving DecidableEq, Repr

/-- What the last argument left open. -/
inductive Pending where
  | nothing
  | slot (s : Slot) (value : Option String)
  | input (path : String)
  deriving DecidableEq, Repr

/-- What has been given so far. -/
structure Draft where
  input : Option String := none
  name : Option String := none
  emit : Option Emit := none
  verbosity : Nat := 0
  quiet : Bool := false
  log : Option LogLevel := none
  logFormat : Option LogFormat := none
  config : Option String := none
  pending : Pending := .nothing
  deriving DecidableEq, Repr

def emit? (s : String) : Option Emit :=
  match s with
  | "java" => some .java
  | "ir" => some .ir
  | _ => none

def logLevel? (s : String) : Option LogLevel :=
  match s with
  | "error" => some .error
  | "warn" => some .warn
  | "info" => some .info
  | "debug" => some .debug
  | "trace" => some .trace
  | _ => none

def logFormat? (s : String) : Option LogFormat :=
  match s with
  | "pretty" => some .pretty
  | "json" => some .json
  | _ => none

/-- A path is not empty. -/
def path? (s : String) : Option String := if s == "" then none else some s

/-- Fills a slot that is still free. -/
def fill {α : Type} (usage : String) (old : Option α) (read : String → Option α) (text : String) :
    Except Stop (Option α) :=
  match old, read text with
  | some _, _ => .error (.fault (.repeated usage))
  | none, none => .error (.fault (.invalidValue text usage))
  | none, some v => .ok (some v)

namespace Draft

def set (d : Draft) (slot : Slot) (text : String) : Except Stop Draft :=
  match slot with
  | .name => do
    let name ← fill slot.usage d.name some text
    .ok { d with name }
  | .emit => do
    let emit ← fill slot.usage d.emit emit? text
    .ok { d with emit }
  | .log => do
    let log ← fill slot.usage d.log logLevel? text
    .ok { d with log }
  | .logFormat => do
    let logFormat ← fill slot.usage d.logFormat logFormat? text
    .ok { d with logFormat }
  | .config => do
    let config ← fill slot.usage d.config path? text
    .ok { d with config }

/-- Checks and takes over what the last argument left open. -/
def settle (d : Draft) : Except Stop Draft :=
  let closed := { d with pending := .nothing }
  match d.pending with
  | .nothing => .ok closed
  | .slot s none => .error (.fault (.missingValue s.usage))
  | .slot s (some text) => closed.set s text
  | .input text =>
    match path? text with
    | none => .error (.fault (.invalidValue text "<INPUT>"))
    | some path => .ok { closed with input := some path }

/-- Leaves a slot open for the next argument. -/
def await (d : Draft) (s : Slot) : Except Stop Draft := do
  let d ← d.settle
  .ok { d with pending := .slot s none }

/-- Gives a slot the value that is written in the same argument. -/
def assign (d : Draft) (s : Slot) (text : String) : Except Stop Draft := do
  let d ← d.settle
  d.set s text

def turnOn (d : Draft) (s : Switch) (detailed : Bool) : Except Stop Draft := do
  let d ← d.settle
  match s with
  | .verbose => .ok { d with verbosity := d.verbosity + 1 }
  | .quiet =>
    if d.quiet then .error (.fault (.repeated s.usage)) else .ok { d with quiet := true }
  | .help => .error (.help detailed)
  | .version => .error .version

def hasInput (d : Draft) : Bool :=
  match d.pending with
  | .input _ => true
  | _ => d.input.isSome

def addInput (d : Draft) (text : String) : Except Stop Draft :=
  if d.hasInput then .error (.fault (.unexpected text))
  else do
    let d ← d.settle
    .ok { d with pending := .input text }

/-- Reads a bundle of short options. A slot takes the rest of the bundle as its value. -/
def readShort (d : Draft) : List Char → Except Stop Draft
  | [] => .ok d
  | c :: cs =>
    match short? c with
    | none => .error (.fault (.unexpected ("-" ++ c.toString)))
    | some (.switch s) => do
      let d ← d.turnOn s false
      d.readShort cs
    | some (.slot s) =>
      match cs with
      | [] => d.await s
      | '=' :: value => d.assign s (String.ofList value)
      | value => d.assign s (String.ofList value)

/-- Reads a long option, behind its dashes, which may have its value behind an equals sign. -/
def readLong (d : Draft) (cs : List Char) : Except Stop Draft :=
  let name := String.ofList (cs.takeWhile (· != '='))
  match long? name, cs.dropWhile (· != '=') with
  | none, _ => .error (.fault (.unexpected ("--" ++ name)))
  | some (.switch s), [] => d.turnOn s true
  | some (.switch s), _ :: value =>
    .error (.fault (.unexpectedValue (String.ofList value) s.usage))
  | some (.slot s), [] => d.await s
  | some (.slot s), _ :: value => d.assign s (String.ofList value)

/-- Reads an argument in front of any `--`. A dash in front of something makes an option. -/
def readArgument (d : Draft) (argument : String) : Except Stop Draft :=
  match argument.toList with
  | '-' :: '-' :: cs => d.readLong cs
  | '-' :: c :: cs => d.readShort (c :: cs)
  | _ =>
    match d.pending with
    | .slot s none => .ok { d with pending := .slot s (some argument) }
    | _ => d.addInput argument

/-- Behind `--` nothing is an option, or the value of one. -/
def readInputs (d : Draft) : List String → Except Stop Draft
  | [] => d.settle
  | a :: as => do
    let d ← d.addInput a
    d.readInputs as

def read (d : Draft) : List String → Except Stop Draft
  | [] => d.settle
  | a :: as =>
    if a == "--" then d.readInputs as
    else do
      let d ← d.readArgument a
      d.read as

end Draft

def Arguments.read (as : List String) : Except Stop Arguments := do
  let d ← ({} : Draft).read as
  match d.input with
  | none => .error (.fault .missingInput)
  | some input =>
    return { input, name := d.name, emit := d.emit.getD .java, verbosity := d.verbosity,
             quiet := d.quiet, log := d.log, logFormat := d.logFormat.getD .pretty,
             config := d.config }

end RpgLowering.Command
