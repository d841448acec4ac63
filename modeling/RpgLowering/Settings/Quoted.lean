import RpgLowering.Settings.Scalar

/-! Quoted texts of a settings file: with escapes or without, on one line or on several. Each
reader starts behind the opening quotes and gives the text and what follows the closing ones. -/
namespace RpgLowering.Settings

def isBlank (c : Char) : Bool := c == ' ' || c == '\t'

/-- What may stand in a comment; texts exclude their quotes and escapes besides. -/
def isPlain (c : Char) : Bool := c == '\t' || (0x20 ≤ c.toNat && c != '\x7f')

def scalarValue? (ds : List Char) : Option Char :=
  let n := valueIn 16 ds
  if ds.all isHexDigit && n.isValidChar then some (Char.ofNat n) else none

def escaped? (c : Char) : Option Char :=
  match c with
  | 'b' => some '\x08'
  | 't' => some '\t'
  | 'n' => some '\n'
  | 'f' => some '\x0c'
  | 'r' => some '\r'
  | '"' => some '"'
  | '\\' => some '\\'
  | _ => none

/-- The character of an escape, behind its backslash. -/
def readEscape : List Char → Option (Char × List Char)
  | 'u' :: a :: b :: c :: d :: cs => (scalarValue? [a, b, c, d]).map (·, cs)
  | 'U' :: a :: b :: c :: d :: e :: f :: g :: h :: cs =>
    (scalarValue? [a, b, c, d, e, f, g, h]).map (·, cs)
  | c :: cs => (escaped? c).map (·, cs)
  | [] => none

/-- Puts a character in front of what was read. -/
def prepend (c : Char) (r : Option (List Char × List Char)) : Option (List Char × List Char) :=
  r.map fun (text, rest) => (c :: text, rest)

/-- The number bounds the characters read. -/
def basicText : Nat → List Char → Option (List Char × List Char)
  | 0, _ => none
  | n + 1, cs =>
    match cs with
    | [] => none
    | '"' :: cs => some ([], cs)
    | '\\' :: cs => do
      let (c, cs) ← readEscape cs
      prepend c (basicText n cs)
    | c :: cs => if isPlain c then prepend c (basicText n cs) else none

def literalText : List Char → Option (List Char × List Char)
  | [] => none
  | '\'' :: cs => some ([], cs)
  | c :: cs => if isPlain c then prepend c (literalText cs) else none

/-! ### On several lines -/

def skipBreak : List Char → List Char
  | '\n' :: cs => cs
  | '\r' :: '\n' :: cs => cs
  | cs => cs

def skipBlanks (cs : List Char) : List Char := cs.dropWhile isBlank

def skipSpace : List Char → List Char
  | '\n' :: cs => skipSpace cs
  | '\r' :: '\n' :: cs => skipSpace cs
  | c :: cs => if isBlank c then skipSpace cs else c :: cs
  | [] => []

def startsBreak : List Char → Bool
  | '\n' :: _ | '\r' :: '\n' :: _ => true
  | _ => false

/-- Behind closing quotes, up to two more quotes belong to the text. -/
def lastQuotes (quote : Char) (cs : List Char) : List Char × List Char :=
  match cs with
  | a :: b :: rest =>
    if a == quote && b == quote then ([quote, quote], rest)
    else if a == quote then ([quote], b :: rest)
    else ([], cs)
  | [a] => if a == quote then ([quote], []) else ([], cs)
  | [] => ([], [])

/-- A backslash at the end of a line joins the next line that is not blank. -/
def basicLines : Nat → List Char → Option (List Char × List Char)
  | 0, _ => none
  | n + 1, cs =>
    match cs with
    | [] => none
    | '"' :: '"' :: '"' :: cs => some (lastQuotes '"' cs)
    | '"' :: cs => prepend '"' (basicLines n cs)
    | '\n' :: cs => prepend '\n' (basicLines n cs)
    | '\r' :: '\n' :: cs => prepend '\n' (basicLines n cs)
    | '\\' :: cs =>
      if startsBreak (skipBlanks cs) then basicLines n (skipSpace cs)
      else do
        let (c, cs) ← readEscape cs
        prepend c (basicLines n cs)
    | c :: cs => if isPlain c then prepend c (basicLines n cs) else none

def literalLines : List Char → Option (List Char × List Char)
  | [] => none
  | '\'' :: '\'' :: '\'' :: cs => some (lastQuotes '\'' cs)
  | '\n' :: cs => prepend '\n' (literalLines cs)
  | '\r' :: '\n' :: cs => prepend '\n' (literalLines cs)
  | c :: cs => if isPlain c then prepend c (literalLines cs) else none

/-- Reads a text of one line, as a key may be. -/
def readQuoted (cs : List Char) : Option (String × List Char) :=
  let read := match cs with
    | '"' :: cs => basicText cs.length cs
    | '\'' :: cs => literalText cs
    | _ => none
  read.map fun (text, rest) => (String.ofList text, rest)

/-- Reads a text of one line or of several; a line break behind the opening quotes is no part
of it. -/
def readText (cs : List Char) : Option (String × List Char) :=
  let read := match cs with
    | '"' :: '"' :: '"' :: cs => basicLines cs.length (skipBreak cs)
    | '\'' :: '\'' :: '\'' :: cs => literalLines (skipBreak cs)
    | '"' :: cs => basicText cs.length cs
    | '\'' :: cs => literalText cs
    | _ => none
  read.map fun (text, rest) => (String.ofList text, rest)

end RpgLowering.Settings
