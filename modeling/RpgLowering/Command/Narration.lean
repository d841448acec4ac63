import RpgLowering.Command.Output

/-! What a run says in the log. It names what it loads and each declaration as it is lowered, and
falls silent at the step that fails. -/
namespace RpgLowering.Command
open RpgLowering.Core (Scope)

def settingsRecords (path : Option String) : List LogRecord :=
  path.toList.map fun path => ⟨.debug, "loaded configuration from " ++ path⟩

def alreadyDeclared (name : String) : LogRecord := ⟨.trace, name ++ " already declared"⟩

def dataRecords (s : Scope) (p : Core.Program) : List Source.DataDefinition → List LogRecord
  | [] => []
  | d :: ds =>
    if (s.globals.lookup d.id).isSome then alreadyDeclared d.name :: dataRecords s p ds
    else
      match Core.declareGlobalOf s p d with
      | .error _ => []
      | .ok (id, _, _) =>
        ⟨.trace, "declared global " ++ d.name ++ " as " ++ toString id.index⟩ ::
          match Core.declareData s p d with
          | .error _ => []
          | .ok (s, p) => dataRecords s p ds

def subroutineRecords (s : Scope) (p : Core.Program) : List Source.Subroutine → List LogRecord
  | [] => []
  | x :: xs =>
    if (s.functions.lookup x.id).isSome then alreadyDeclared x.name :: subroutineRecords s p xs
    else
      match Core.declareSubroutine s p x with
      | .error _ => []
      | .ok (s, p) => ⟨.trace, "declared function " ++ x.name⟩ :: subroutineRecords s p xs

def loweringRecords (name : String) (u : Source.CompilationUnit) : List LogRecord :=
  let s : Scope := { unit := u }
  let p := Core.Program.new name
  ⟨.debug, "lowering " ++ name⟩ :: dataRecords s p u.declarations ++
    match Core.declareAllData s p u.declarations with
    | .error _ => []
    | .ok (s, p) => ⟨.debug, "declaring subroutines"⟩ :: subroutineRecords s p u.subroutines

def successRecords (verbosity : Nat) (text : String) : List LogRecord :=
  ⟨.debug, "rendered " ++ toString text.utf8ByteSize ++ " bytes"⟩ ::
    if 0 < verbosity then [⟨.info, "Translation completed successfully"⟩] else []

def unitRecords (a : Arguments) (s : Settings) (name : String) (content : ByteArray) :
    List LogRecord :=
  [⟨.info, "translating " ++ a.input ++ " as " ++ name⟩,
    ⟨.debug, "loading compilation unit from " ++ a.input⟩] ++
    match Source.CompilationUnit.loadBytes content with
    | .error _ => []
    | .ok u =>
      loweringRecords name u ++
        match a.emit.text { indent := s.indentSize } name u with
        | .error _ => []
        | .ok text => successRecords a.verbosity text

/-- The records of a run, in order. -/
def narration (files : Files) (user : Option String) (a : Arguments) : List LogRecord :=
  match settings files user a.config with
  | .error _ => []
  | .ok s =>
    settingsRecords (settingsPath? files user a.config) ++
      match inputContent files a.input, chosenName s a.name a.input with
      | .ok content, .ok name => unitRecords a s name content
      | _, _ => []

end RpgLowering.Command
