import RpgLowering.Settings
import RpgLowering.Settings.Tables

/-! Settings as text. Unknown keys are ignored and missing ones have their defaults. -/
namespace RpgLowering.Settings

/-- Says that a value is not of the expected kind. -/
def unexpected {α : Type} (v : Value) : Except String α :=
  match v with
  | .string text => .error ("unexpected string \"" ++ text ++ "\"")
  | _ => .error "unexpected value"

/-- The only field of a section, which may also be written as an array of its fields. -/
def field (key : String) (v : Value) : Except String (Option Value) :=
  match v with
  | .table _ entries => .ok (entries.lookup key)
  | .array items => .ok items.head?
  | .tables elements => .ok (elements.head?.map (.table .header))
  | .moment => .ok none
  | v => unexpected v

/-- The field of a section of a file, or a default if it is not there. -/
def setting {α : Type} (entries : Entries) (part key : String) (default : α)
    (read : Value → Except String α) : Except String α :=
  match entries.lookup part with
  | none => .ok default
  | some v => do
    match ← field key v with
    | none => .ok default
    | some v => read v

def natural (v : Value) : Except String Nat :=
  match v with
  | .integer n => if 0 ≤ n then .ok n.toNatClampNeg else unexpected v
  | v => unexpected v

def string (v : Value) : Except String String :=
  match v with
  | .string s => .ok s
  | v => unexpected v

def ofEntries (entries : Entries) : Except String Settings := do
  let indentSize ← setting entries "formatting" "indent_size" ({} : Settings).indentSize natural
  let defaultName ← setting entries "translation" "default_name" ({} : Settings).defaultName string
  .ok { indentSize, defaultName }

/-- Why some tables are no settings. -/
def complaint (entries : Entries) : Option String :=
  match ofEntries entries with
  | .ok _ => none
  | .error reason => some reason

/-- Reads settings, or says at which line they go wrong. Faults of the text come before those of
its values. -/
def ofText (text : String) : Except String Settings :=
  match tables? text with
  | none => .error (fault (fun _ => none) text)
  | some entries => (ofEntries entries).mapError fun _ => fault complaint text

def hexDigits (width n : Nat) : List Char :=
  let ds := Nat.toDigits 16 n
  List.replicate (width - ds.length) '0' ++ ds

/-- Only plain characters other than quotes and backslashes stand for themselves. -/
def quotedChar (c : Char) : List Char :=
  if c == '"' || c == '\\' then ['\\', c]
  else if isPlain c && c != '\t' then [c]
  else '\\' :: 'u' :: hexDigits 4 c.toNat

/-- Writes settings. -/
def text (s : Settings) : String :=
  "[formatting]\nindent_size = " ++ toString s.indentSize ++
    "\n\n[translation]\ndefault_name = \"" ++
    String.ofList (s.defaultName.toList.flatMap quotedChar) ++ "\"\n"

end RpgLowering.Settings
