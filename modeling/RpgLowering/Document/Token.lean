import RpgLowering.Real.Numeral
import RpgLowering.Text.Quoted

/-! The pieces of a JSON text. The text is read one character at a time by a machine that emits
a token when one is complete, and stops at the first character that fits nowhere. -/
namespace RpgLowering.Document

inductive Token where
  | openObject
  | closeObject
  | openArray
  | closeArray
  | comma
  | colon
  | null
  | bool (b : Bool)
  | number (literal : List Char)
  /-- Without a text if the literal holds half of a surrogate pair. -/
  | string (text : Option String)
  /-- The text stops being JSON here. -/
  | bad
  deriving DecidableEq, Repr

def isHigh (n : Nat) : Bool := 0xd800 ≤ n && n < 0xdc00

def isLow (n : Nat) : Bool := 0xdc00 ≤ n && n < 0xe000

/-- Joins surrogate pairs; a half that stands alone denotes nothing. -/
def textOf? : List Nat → Option (List Char)
  | [] => some []
  | [n] => if isHigh n || isLow n then none else some [Char.ofNat n]
  | n :: m :: rest =>
    if isHigh n && isLow m then
      (textOf? rest).map (Char.ofNat (0x10000 + (n - 0xd800) * 0x400 + (m - 0xdc00)) :: ·)
    else if isHigh n || isLow n then none
    else (textOf? (m :: rest)).map (Char.ofNat n :: ·)

/-- Where the machine stands; lists are kept with the last item in front. -/
inductive Mode where
  | between
  | word (chars : List Char)
  | text (codes : List Nat)
  | escape (codes : List Nat)
  | unicode (codes : List Nat) (digits : List Nat)
  | stopped

def isBlank (c : Char) : Bool := c == ' ' || c == '\t' || c == '\n' || c == '\r'

def isWordChar (c : Char) : Bool := c.isAlphanum || c == '-' || c == '+' || c == '.'

def wordToken (chars : List Char) : Token :=
  if chars = ['n', 'u', 'l', 'l'] then .null
  else if chars = ['t', 'r', 'u', 'e'] then .bool true
  else if chars = ['f', 'a', 'l', 's', 'e'] then .bool false
  else if (Numeral.ofChars? chars).isSome then .number chars
  else .bad

def escapeCode? : Char → Option Nat
  | '"' => some 0x22
  | '\\' => some 0x5c
  | '/' => some 0x2f
  | 'b' => some 0x08
  | 'f' => some 0x0c
  | 'n' => some 0x0a
  | 'r' => some 0x0d
  | 't' => some 0x09
  | _ => none

/-- The step at a character that starts something new. -/
def start (c : Char) : List Token × Mode :=
  if isBlank c then ([], .between)
  else match c with
    | '\x7b' => ([.openObject], .between)
    | '\x7d' => ([.closeObject], .between)
    | '[' => ([.openArray], .between)
    | ']' => ([.closeArray], .between)
    | ',' => ([.comma], .between)
    | ':' => ([.colon], .between)
    | '"' => ([], .text [])
    | c => if isWordChar c then ([], .word [c]) else ([.bad], .stopped)

def step : Mode → Char → List Token × Mode
  | .between, c => start c
  | .word chars, c =>
    if isWordChar c then ([], .word (c :: chars))
    else ((wordToken chars.reverse :: (start c).1), (start c).2)
  | .text codes, c =>
    if c = '"' then ([.string ((textOf? codes.reverse).map String.ofList)], .between)
    else if c = '\\' then ([], .escape codes)
    else if c.toNat < 0x20 then ([.bad], .stopped)
    else ([], .text (c.toNat :: codes))
  | .escape codes, c =>
    if c = 'u' then ([], .unicode codes [])
    else match escapeCode? c with
      | some n => ([], .text (n :: codes))
      | none => ([.bad], .stopped)
  | .unicode codes digits, c =>
    match Text.hexValue? c with
    | none => ([.bad], .stopped)
    | some d =>
      match digits with
      | [z, y, x] => ([], .text ((((x * 16 + y) * 16 + z) * 16 + d) :: codes))
      | _ => ([], .unicode codes (d :: digits))
  | .stopped, _ => ([], .stopped)

/-- What is left at the end of the text. -/
def finish : Mode → List Token
  | .between | .stopped => []
  | .word chars => [wordToken chars.reverse]
  | .text _ | .escape _ | .unicode .. => [.bad]

def tokensFrom (mode : Mode) : List Char → List Token
  | [] => finish mode
  | c :: cs => (step mode c).1 ++ tokensFrom (step mode c).2 cs

def tokens (cs : List Char) : List Token := tokensFrom .between cs

end RpgLowering.Document
