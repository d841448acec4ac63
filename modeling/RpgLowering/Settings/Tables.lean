import RpgLowering.Settings.Quoted

/-! The tables of a settings file, in TOML 1.0. -/
namespace RpgLowering.Settings

/-- How deep values may nest, and how many parts a key may have. -/
def deepest : Nat := 79

/-! ### Keys -/

def isKeyChar (c : Char) : Bool := c.isAlphanum || c == '_' || c == '-'

def readKeyPart (cs : List Char) : Option (String × List Char) :=
  match cs with
  | '"' :: _ | '\'' :: _ => readQuoted cs
  | cs =>
    match cs.takeWhile isKeyChar with
    | [] => none
    | part => some (String.ofList part, cs.dropWhile isKeyChar)

/-- Reads the parts of a dotted key, and the blanks around them. -/
def readKey : Nat → List Char → Option (List String × List Char)
  | 0, _ => none
  | n + 1, cs => do
    let (part, cs) ← readKeyPart (skipBlanks cs)
    match skipBlanks cs with
    | '.' :: cs => do
      let (parts, cs) ← readKey n cs
      some (part :: parts, cs)
    | cs => some ([part], cs)

/-! ### Values -/

def skipComment (cs : List Char) : List Char :=
  match cs with
  | '#' :: cs => cs.dropWhile isPlain
  | cs => cs

/-- Skips blanks, line breaks and comments. -/
def skipLines : Bool → List Char → List Char
  | _, [] => []
  | _, '\n' :: cs => skipLines false cs
  | _, '\r' :: '\n' :: cs => skipLines false cs
  | true, c :: cs => if isPlain c then skipLines true cs else c :: cs
  | false, c :: cs =>
    if isBlank c then skipLines false cs
    else if c == '#' then skipLines true cs
    else c :: cs

mutual

/-- Reads one value. The first number bounds the calls, the second the nesting. -/
def readValue : Nat → Nat → List Char → Option (Value × List Char)
  | 0, _, _ => none
  | n + 1, room, cs =>
    match cs, room with
    | '"' :: _, _ | '\'' :: _, _ => (readText cs).map fun (text, rest) => (.string text, rest)
    | '[' :: cs, room + 1 => do
      let (items, cs) ← readItems n room cs
      some (.array items, cs)
    | '\x7b' :: cs, room + 1 =>
      match skipBlanks cs with
      | '\x7d' :: cs => some (.table .closed [], cs)
      | cs => do
        let (entries, cs) ← readMembers n room [] cs
        some (.table .closed entries, cs)
    | cs, _ => readBare cs

/-- Reads items up to the closing bracket; a comma may follow the last. -/
def readItems : Nat → Nat → List Char → Option (List Value × List Char)
  | 0, _, _ => none
  | n + 1, room, cs =>
    match skipLines false cs with
    | ']' :: cs => some ([], cs)
    | cs => do
      let (item, cs) ← readValue n room cs
      match skipLines false cs with
      | ',' :: cs => do
        let (items, cs) ← readItems n room cs
        some (item :: items, cs)
      | ']' :: cs => some ([item], cs)
      | _ => none

/-- Reads one or more members up to the closing brace. -/
def readMembers : Nat → Nat → Entries → List Char → Option (Entries × List Char)
  | 0, _, _, _ => none
  | n + 1, room, entries, cs => do
    let (path, cs) ← readKey deepest cs
    let key ← path.getLast?
    match cs with
    | '=' :: cs => do
      let (v, cs) ← readValue n room (skipBlanks cs)
      let entries ← entries.put key v path.dropLast
      match skipBlanks cs with
      | ',' :: cs => readMembers n room entries cs
      | '\x7d' :: cs => some (entries, cs)
      | _ => none
    | _ => none

end

/-! ### Lines -/

/-- Skips the rest of a line that holds no more than a comment. -/
def endLine (cs : List Char) : Option (List Char) :=
  match skipComment (skipBlanks cs) with
  | [] => some []
  | '\n' :: cs => some cs
  | '\r' :: '\n' :: cs => some cs
  | _ => none

/-- The tables so far, and the path of the one that is open. -/
structure Reading where
  root : Entries := []
  cursor : List String := []

/-- Opens the table or the element of a header. -/
def Reading.openWith (r : Reading) (start : String → Entries → Option Entries)
    (path : List String) : Option Reading := do
  let key ← path.getLast?
  let root ← r.root.within (start key) path.dropLast
  some { root, cursor := path }

def Reading.put (r : Reading) (path : List String) (v : Value) : Option Reading := do
  let key ← path.getLast?
  let root ← r.root.within (Entries.put key v path.dropLast) r.cursor
  some { r with root }

/-- Reads a header or an assignment, to the end of its line. -/
def readLine (r : Reading) (cs : List Char) : Option (Reading × List Char) :=
  match cs with
  | '[' :: '[' :: cs => do
    let (path, cs) ← readKey deepest cs
    match cs with
    | ']' :: ']' :: cs => do
      let r ← r.openWith Entries.openElement path
      let cs ← endLine cs
      some (r, cs)
    | _ => none
  | '[' :: cs => do
    let (path, cs) ← readKey deepest cs
    match cs with
    | ']' :: cs => do
      let r ← r.openWith Entries.openTable path
      let cs ← endLine cs
      some (r, cs)
    | _ => none
  | cs => do
    let (path, cs) ← readKey deepest cs
    match cs with
    | '=' :: cs => do
      let (v, cs) ← readValue (2 * cs.length + 1) deepest (skipBlanks cs)
      let r ← r.put path v
      let cs ← endLine cs
      some (r, cs)
    | _ => none

def readAll : Nat → Reading → List Char → Option Reading
  | 0, _, _ => none
  | n + 1, r, cs =>
    match cs with
    | [] => some r
    | cs =>
      match endLine cs with
      | some cs => readAll n r cs
      | none => do
        let (r, cs) ← readLine r (skipBlanks cs)
        readAll n r cs

/-- The characters after a byte order mark. -/
def content (text : String) : List Char :=
  match text.toList with
  | '\ufeff' :: cs => cs
  | cs => cs

/-- The tables of a text. Every line takes at least one character. -/
def tables? (text : String) : Option Entries :=
  let cs := content text
  (readAll (cs.length + 1) {} cs).map (·.root)

/-- The first fault from some place on: a line that cannot be read, or a complaint about the tables
after it. A statement over several lines is shown by its first. -/
def faultFrom (complaint : Entries → Option String) : Nat → Reading → List Char → Option String
  | 0, _, _ => none
  | n + 1, r, cs =>
    match cs with
    | [] => none
    | cs =>
      match endLine cs with
      | some cs => faultFrom complaint n r cs
      | none =>
        let line := String.ofList (cs.takeWhile (· != '\n'))
        match readLine r (skipBlanks cs) with
        | none => some ("unreadable line " ++ line)
        | some (r, cs) =>
          match complaint r.root with
          | some reason => some (reason ++ " in line " ++ line)
          | none => faultFrom complaint n r cs

def fault (complaint : Entries → Option String) (text : String) : String :=
  let cs := content text
  (faultFrom complaint (cs.length + 1) {} cs).getD ""

end RpgLowering.Settings
