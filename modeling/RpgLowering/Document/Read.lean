import RpgLowering.Document.Tree

/-! Typed values from trees. A record is an object, with members in any order, or an array of its
fields in order; a choice is the name of a variant, alone or as the only key of an object. Members
that a record does not know are skipped. Faults are reported in the order of the text. -/
namespace RpgLowering.Document

inductive ReadError where
  | missingField (name : String)
  | duplicateField (name : String)
  | unknownVariant (name : String) (expected : List String)
  /-- A string stands where something else is expected. -/
  | unexpectedString (text : String)
  /-- The text is no JSON, or not of the expected form. -/
  | malformed
  deriving DecidableEq, Repr

def ticked (s : String) : String := "`" ++ s ++ "`"

def oneOf : List String → String
  | [a] => ticked a
  | [a, b] => ticked a ++ " or " ++ ticked b
  | names => "one of " ++ String.intercalate ", " (names.map ticked)

def ReadError.message : ReadError → String
  | missingField name => "missing field " ++ ticked name
  | duplicateField name => "duplicate field " ++ ticked name
  | unknownVariant name expected => "unknown variant " ++ ticked name ++ ", expected " ++ oneOf expected
  | unexpectedString text => "unexpected string \"" ++ text ++ "\""
  | malformed => "malformed document"

abbrev Reader (α : Type) := Document → Except ReadError α

/-- How many objects and arrays may be open at once. -/
def deepest : Nat := 127

/-- Fails at a value of another kind than expected. -/
def unreadable {α : Type} : Reader α
  | .string (some text) => .error (.unexpectedString text)
  | _ => .error .malformed

/-- Reads a value for which one more object or array is opened, of `room` that may be. -/
def inside {α : Type} (room : Nat) (read : Nat → Reader α) : Reader α :=
  match room with
  | 0 => unreadable
  | room + 1 => read room

def readBool : Reader Bool
  | .bool b => .ok b
  | d => unreadable d

def readString : Reader String
  | .string (some s) => .ok s
  | _ => .error .malformed

def readInteger (low high : Int) : Reader Int
  | .number literal =>
    match (Numeral.ofChars? literal).bind Numeral.integer? with
    | some n => if low ≤ n ∧ n ≤ high then .ok n else .error .malformed
    | none => .error .malformed
  | d => unreadable d

def readUInt32 : Reader UInt32 := fun d => do
  let n ← readInteger 0 0xffffffff d
  .ok n.toNat.toUInt32

def readInt64 : Reader Int64 := fun d => do
  let n ← readInteger (-0x8000000000000000) 0x7fffffffffffffff d
  .ok (Int64.ofInt n)

def readReal : Reader Binary64
  | .number literal =>
    match (Numeral.ofChars? literal).bind Numeral.real? with
    | some x => .ok x
    | none => .error .malformed
  | d => unreadable d

def readOption {α : Type} (read : Reader α) : Reader (Option α)
  | .null => .ok none
  | d => do
    let a ← read d
    .ok (some a)

def readItems {α : Type} (read : Reader α) : Reader (List α)
  | .array items => items.mapM read
  | d => unreadable d

/-- How the fields of a record are collected. -/
structure Record (α : Type) where
  Draft : Type
  empty : Draft
  /-- Takes a member, if its key is one of the record's. -/
  member : String → Document → Draft → Option (Except ReadError Draft)
  close : Draft → Except ReadError α
  /-- Takes the fields in order from the front of a list. -/
  items : List Document → Except ReadError (α × List Document)

namespace Record

/-- A single field. `absent` is its value when an object has no such member, `atEnd` when an array
ends before it. -/
def field {α : Type} (key : String) (absent atEnd : Option α) (read : Reader α) : Record α where
  Draft := Option α
  empty := none
  member k d draft :=
    if k = key then
      match draft with
      | some _ => some (.error (.duplicateField key))
      | none => some ((read d).map some)
    else none
  close draft :=
    match draft, absent with
    | some a, _ => .ok a
    | none, some a => .ok a
    | none, none => .error (.missingField key)
  items ds :=
    match ds, atEnd with
    | d :: ds, _ => (read d).map fun a => (a, ds)
    | [], some a => .ok (a, [])
    | [], none => .error .malformed

def required {α : Type} (key : String) (read : Reader α) : Record α := field key none none read

def defaulted {α : Type} (key : String) (value : α) (read : Reader α) : Record α :=
  field key (some value) (some value) read

/-- A field that may be absent from an object, but not from an array. -/
def nullable {α : Type} (key : String) (read : Reader α) : Record (Option α) :=
  field key (some none) none (readOption read)

/-- A field that may be absent. -/
def optional {α : Type} (key : String) (read : Reader α) : Record (Option α) :=
  defaulted key none (readOption read)

def and {α β : Type} (r : Record α) (s : Record β) : Record (α × β) where
  Draft := r.Draft × s.Draft
  empty := (r.empty, s.empty)
  member k d draft :=
    match r.member k d draft.1 with
    | some result => some (result.map fun x => (x, draft.2))
    | none => (s.member k d draft.2).map fun result => result.map fun y => (draft.1, y)
  close draft := do
    let a ← r.close draft.1
    let b ← s.close draft.2
    .ok (a, b)
  items ds := do
    let (a, ds) ← r.items ds
    let (b, ds) ← s.items ds
    .ok ((a, b), ds)

def ofMembers {α : Type} (r : Record α) :
    r.Draft → List (Option String × Document) → Except ReadError α
  | draft, [] => r.close draft
  | _, (none, _) :: _ => .error .malformed
  | draft, (some key, d) :: ms =>
    match r.member key d draft with
    | some (.ok draft) => r.ofMembers draft ms
    | some (.error e) => .error e
    | none => if d.isWhole then r.ofMembers draft ms else .error .malformed

def ofItems {α : Type} (r : Record α) (ds : List Document) : Except ReadError α := do
  let (a, rest) ← r.items ds
  if rest.isEmpty then .ok a else .error .malformed

def read {α : Type} (r : Record α) : Reader α
  | .object ms => r.ofMembers r.empty ms
  | .array ds => r.ofItems ds
  | d => unreadable d

/-- Reads a record and builds a value of its fields. -/
def readAs {α β : Type} (r : Record α) (build : α → β) : Reader β := fun d =>
  (r.read d).map build

end Record

/-- Two values, always written as an array. -/
def readPair {α β : Type} (first : Reader α) (second : Reader β) : Reader (α × β)
  | .array ds => ((Record.required "" first).and (Record.required "" second)).ofItems ds
  | d => unreadable d

inductive Variant (α : Type) where
  | plain (name : String) (value : α)
  | holding (name : String) (read : Reader α)

namespace Variant

def name {α : Type} : Variant α → String
  | plain n _ | holding n _ => n

def find {α : Type} (variants : List (Variant α)) (name : String) :
    Except ReadError (Variant α) :=
  match variants.find? (·.name == name) with
  | some v => .ok v
  | none => .error (.unknownVariant name (variants.map (·.name)))

/-- The value of a variant from its content; a plain variant has `null`. -/
def ofContent {α : Type} : Variant α → Reader α
  | plain _ a, .null => .ok a
  | plain .., d => unreadable d
  | holding _ read, d => read d

/-- Only plain variants are written by their name alone. -/
def ofName {α : Type} : Variant α → Except ReadError α
  | plain _ a => .ok a
  | holding .. => .error .malformed

end Variant

/-- Reads a choice; an object is accepted only if there is room to open it. -/
def readChoice {α : Type} (hasRoom : Bool) (variants : List (Variant α)) : Reader α
  | .string (some name) => do
    let v ← Variant.find variants name
    v.ofName
  | .object ((some name, content) :: others) =>
    if hasRoom then do
      let v ← Variant.find variants name
      let a ← v.ofContent content
      if others.isEmpty then .ok a else .error .malformed
    else .error .malformed
  | _ => .error .malformed

/-- Reads a whole text. -/
def readText {α : Type} (read : Reader α) (text : String) : Except ReadError α :=
  match parse text.toList with
  | (d, endsThere) => do
    let a ← read d
    if endsThere then .ok a else .error .malformed

end RpgLowering.Document
