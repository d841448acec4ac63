/-! Double-quoted literals. A control character is written as a backslash and three octal
digits unless it has a letter of its own. -/
namespace RpgLowering.Text

def isControl (c : Char) : Bool :=
  c.toNat < 0x20 || (0x7f ≤ c.toNat && c.toNat < 0xa0)

/-- The value of a hexadecimal digit. -/
def hexValue? (c : Char) : Option Nat :=
  if c.isDigit then some (c.toNat - '0'.toNat)
  else if 'a' ≤ c ∧ c ≤ 'f' then some (c.toNat - 'a'.toNat + 10)
  else if 'A' ≤ c ∧ c ≤ 'F' then some (c.toNat - 'A'.toNat + 10)
  else none

def octalDigit (n : Nat) : Char := Char.ofNat ('0'.toNat + n % 8)

def octal (n : Nat) : List Char :=
  [octalDigit (n / 64), octalDigit (n / 8), octalDigit n]

def escapeChar (c : Char) : List Char :=
  match c with
  | '"' => ['\\', '"']
  | '\\' => ['\\', '\\']
  | '\n' => ['\\', 'n']
  | '\r' => ['\\', 'r']
  | '\t' => ['\\', 't']
  | c => if isControl c then '\\' :: octal c.toNat else [c]

def escapeChars (cs : List Char) : List Char := cs.flatMap escapeChar

@[simp] theorem escapeChars_append (a b : List Char) :
    escapeChars (a ++ b) = escapeChars a ++ escapeChars b := by
  simp [escapeChars]

def escape (s : String) : String := String.ofList (escapeChars s.toList)

def quote (s : String) : String := "\"" ++ escape s ++ "\""

end RpgLowering.Text
