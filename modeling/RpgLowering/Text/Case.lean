/-! Upper-case and lower-case forms, character by character, as far as they are made of ASCII
letters. Every other character outside ASCII has forms with a character outside ASCII, and
stands here for itself: an identifier contains neither. -/
namespace RpgLowering.Text

/-- Characters outside ASCII whose upper-case form is within ASCII. -/
def specialUpper : List (Char × List Char) :=
  [ ('\u00df', ['S', 'S']), ('\u0131', ['I']), ('\u017f', ['S']), ('\ufb00', ['F', 'F']), ('\ufb01', ['F', 'I']),
    ('\ufb02', ['F', 'L']), ('\ufb03', ['F', 'F', 'I']), ('\ufb04', ['F', 'F', 'L']), ('\ufb05', ['S', 'T']),
    ('\ufb06', ['S', 'T']) ]

/-- Characters outside ASCII whose lower-case form is within ASCII: the Kelvin sign. -/
def specialLower : List (Char × List Char) := [ ('\u212a', ['k']) ]

def upper (c : Char) : List Char := (specialUpper.lookup c).getD [c.toUpper]

def lower (c : Char) : List Char := (specialLower.lookup c).getD [c.toLower]

/-- The first character in upper case, the others in lower case. -/
def capitalize : List Char → List Char
  | [] => []
  | c :: cs => upper c ++ cs.flatMap lower

end RpgLowering.Text
