import RpgLowering.Document.Tree

/-! JSON texts of trees, on one line or with an indentation of two spaces. -/
namespace RpgLowering.Document

inductive Form where
  | compact
  | pretty
  deriving DecidableEq, Repr

def hexDigit (n : Nat) : Char :=
  if n < 10 then Char.ofNat ('0'.toNat + n) else Char.ofNat ('a'.toNat + (n - 10))

def escapeChar (c : Char) : List Char :=
  match c with
  | '"' => ['\\', '"']
  | '\\' => ['\\', '\\']
  | '\x08' => ['\\', 'b']
  | '\x0c' => ['\\', 'f']
  | '\n' => ['\\', 'n']
  | '\r' => ['\\', 'r']
  | '\t' => ['\\', 't']
  | c =>
    if c.toNat < 0x20 then ['\\', 'u', '0', '0', hexDigit (c.toNat / 16), hexDigit (c.toNat % 16)]
    else [c]

/-- Writers put their text in front of what follows. -/
def writeString (s : String) (rest : List Char) : List Char :=
  '"' :: (s.toList.flatMap escapeChar ++ '"' :: rest)

/-- A new line at a nesting level, in the pretty form. -/
def writeBreak (form : Form) (level : Nat) (rest : List Char) : List Char :=
  match form with
  | .compact => rest
  | .pretty => '\n' :: (List.replicate (2 * level) ' ' ++ rest)

def writeColon (form : Form) (rest : List Char) : List Char :=
  match form with
  | .compact => ':' :: rest
  | .pretty => ':' :: ' ' :: rest

mutual

def write (form : Form) (level : Nat) : Document → List Char → List Char
  | .null, rest => 'n' :: 'u' :: 'l' :: 'l' :: rest
  | .bool true, rest => 't' :: 'r' :: 'u' :: 'e' :: rest
  | .bool false, rest => 'f' :: 'a' :: 'l' :: 's' :: 'e' :: rest
  | .number literal, rest => literal ++ rest
  | .string text, rest => writeString (text.getD "") rest
  | .array [], rest => '[' :: ']' :: rest
  | .array (d :: ds), rest =>
    '[' :: writeBreak form (level + 1)
      (d.write form (level + 1) (writeItems form level ds rest))
  | .object [], rest => '\x7b' :: '\x7d' :: rest
  | .object ((key, d) :: ms), rest =>
    '\x7b' :: writeBreak form (level + 1)
      (writeString (key.getD "")
        (writeColon form (d.write form (level + 1) (writeMembers form level ms rest))))
  | .cut, rest => rest

/-- The items after the first, and the closing bracket. -/
def writeItems (form : Form) (level : Nat) : List Document → List Char → List Char
  | [], rest => writeBreak form level (']' :: rest)
  | d :: ds, rest =>
    ',' :: writeBreak form (level + 1)
      (d.write form (level + 1) (writeItems form level ds rest))

/-- The members after the first, and the closing brace. -/
def writeMembers (form : Form) (level : Nat) :
    List (Option String × Document) → List Char → List Char
  | [], rest => writeBreak form level ('\x7d' :: rest)
  | (key, d) :: ms, rest =>
    ',' :: writeBreak form (level + 1)
      (writeString (key.getD "")
        (writeColon form (d.write form (level + 1) (writeMembers form level ms rest))))

end

def print (form : Form) (d : Document) : String := String.ofList (d.write form 0 [])

end RpgLowering.Document
