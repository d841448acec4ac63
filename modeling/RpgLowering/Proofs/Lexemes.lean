import RpgLowering.Target.Print
import RpgLowering.Proofs.DecimalText

/-! The lexemes of Java expressions. A text is read one character at a time by a machine that emits
a lexeme when nothing more can belong to it. Words, numbers and strings as they are printed are read
as single lexemes. -/
namespace RpgLowering.Target
open Text

/-! ### Identifiers -/

/-- Characters without a glyph that may stand inside identifiers. -/
def isIgnorable (c : Char) : Bool :=
  c.toNat ≤ 0x08 || (0x0e ≤ c.toNat && c.toNat ≤ 0x1b) || c.toNat == 0x7f

/-- The characters of identifiers, which Java takes from the Unicode tables. Any tables will do here
that are right for ASCII. -/
structure Letters where
  start : Char → Bool
  part : Char → Bool
  ascii_start : ∀ c, c.toNat < 128 → start c = (c.isAlpha || c == '_' || c == '$')
  ascii_part : ∀ c, c.toNat < 128 →
    part c = (c.isAlphanum || c == '_' || c == '$' || isIgnorable c)

def reservedWords : List String :=
  ["abstract", "assert", "boolean", "break", "byte", "case", "catch", "char", "class", "const",
    "continue", "default", "do", "double", "else", "enum", "extends", "final", "finally", "float",
    "for", "goto", "if", "implements", "import", "instanceof", "int", "interface", "long", "native",
    "new", "package", "private", "protected", "public", "return", "short", "static", "strictfp",
    "super", "switch", "synchronized", "this", "throw", "throws", "transient", "try", "void",
    "volatile", "while", "_", "true", "false", "null"]

/-- The text is an identifier. -/
structure Letters.Identifier (L : Letters) (word : List Char) : Prop where
  start : ∃ c cs, word = c :: cs ∧ L.start c = true
  part : ∀ c ∈ word, L.part c = true
  free : String.ofList word ∉ reservedWords

/-- The letters and digits of ASCII only. -/
def Letters.ascii : Letters where
  start c := c.isAlpha || c == '_' || c == '$'
  part c := c.isAlphanum || c == '_' || c == '$' || isIgnorable c
  ascii_start _ _ := rfl
  ascii_part _ _ := rfl

theorem Letters.identifier_iff {L : Letters} {word : List Char} : L.Identifier word ↔
    word.head?.any L.start = true ∧ word.all L.part = true ∧ String.ofList word ∉ reservedWords := by
  constructor
  · intro h
    obtain ⟨c, cs, rfl, hc⟩ := h.start
    exact ⟨hc, List.all_eq_true.mpr h.part, h.free⟩
  · intro ⟨hstart, hpart, hfree⟩
    refine ⟨?_, List.all_eq_true.mp hpart, hfree⟩
    cases word with
    | nil => cases hstart
    | cons c cs => exact ⟨c, cs, rfl, hstart⟩

instance (L : Letters) (word : List Char) : Decidable (L.Identifier word) :=
  decidable_of_iff _ Letters.identifier_iff.symm

/-! ### Reading -/

inductive Lexeme where
  | word (text : String)
  | this
  /-- A decimal integer; a long one has the suffix `L`. -/
  | integer (value : Nat) (isLong : Bool)
  | real (value : Binary64)
  | string (text : String)
  | dot
  | comma
  | openParen
  | closeParen
  | assign
  | equals
  | atMost
  | plus
  | minus
  | increment
  /-- The text goes on with something that is not read here. -/
  | bad
  deriving DecidableEq, Inhabited

/-- Where the machine stands; lists are kept with the last item in front. -/
inductive Mode where
  | between
  | word (chars : List Char)
  | number (chars : List Char)
  | text (chars : List Char)
  | escape (chars : List Char)
  /-- Inside an octal escape, with how many digits may still follow. -/
  | octal (chars : List Char) (value left : Nat)
  /-- Behind two quotes; a third one would open a text block. -/
  | twoQuotes
  /-- Behind a character that may be the first of an operator. -/
  | mark (c : Char)
  | stopped

def isBlank (c : Char) : Bool := c == ' ' || c == '\t' || c == '\n' || c == '\r' || c == '\x0c'

def isMark (c : Char) : Bool := c == '+' || c == '-' || c == '=' || c == '<' || c == '.'

def markLexeme : Char → Lexeme
  | '+' => .plus
  | '-' => .minus
  | '=' => .assign
  | '.' => .dot
  | _ => .bad

/-- What two characters mean together, where they do not stand apart. -/
def joint? (m c : Char) : Option Lexeme :=
  match m, c with
  | '+', '+' => some .increment
  | '=', '=' => some .equals
  | '<', '=' => some .atMost
  | '+', '=' | '-', '-' | '-', '=' | '-', '>' => some .bad
  | m, c => if m == '.' && c.isDigit then some .bad else none

/-- Whether a character belongs to the number that `prev` belongs to: signs stand only behind the
letter of an exponent. -/
def numberGoesOn (prev c : Char) : Bool :=
  c.isAlphanum || c == '.' || c == '_' || ((c == '+' || c == '-') && (prev == 'e' || prev == 'E'))

def wordLexeme (word : List Char) : Lexeme :=
  if String.ofList word = "this" then .this
  else if String.ofList word ∈ reservedWords then .bad
  else .word (String.ofList word)

def numberLexeme (chars : List Char) : Lexeme :=
  match Numeral.ofChars? chars with
  | some n =>
    if n.isWhole then .integer (Numeral.ofDigits n.whole) false
    else match n.nearest? with
      | some x => .real x
      | none => .bad
  | none =>
    match chars.getLast?, Numeral.ofChars? chars.dropLast with
    | some 'L', some n | some 'l', some n =>
      if n.isWhole then .integer (Numeral.ofDigits n.whole) true else .bad
    | _, _ => .bad

def escaped? : Char → Option Char
  | 'b' => some '\x08'
  | 's' => some ' '
  | 't' => some '\t'
  | 'n' => some '\n'
  | 'f' => some '\x0c'
  | 'r' => some '\r'
  | '"' => some '"'
  | '\'' => some '\''
  | '\\' => some '\\'
  | _ => none

def isOctal (c : Char) : Bool := '0' ≤ c && c ≤ '7'

variable (L : Letters)

/-- The step at a character that starts something new. -/
def start (c : Char) : List Lexeme × Mode :=
  if isBlank c then ([], .between)
  else if c = '(' then ([.openParen], .between)
  else if c = ')' then ([.closeParen], .between)
  else if c = ',' then ([.comma], .between)
  else if c = '"' then ([], .text [])
  else if isMark c then ([], .mark c)
  else if c.isDigit then ([], .number [c])
  else if L.start c then ([], .word [c])
  else ([.bad], .stopped)

/-- The step at a character inside a string literal, behind the characters so far. -/
def textStep (chars : List Char) (c : Char) : List Lexeme × Mode :=
  if c = '"' then
    (if chars.isEmpty then ([], .twoQuotes) else ([.string (String.ofList chars.reverse)], .between))
  else if c = '\\' then ([], .escape chars)
  else if c = '\n' ∨ c = '\r' then ([.bad], .stopped)
  else ([], .text (c :: chars))

/-- One step. A backslash in front of a `u` spells a character by its code, anywhere in a text; such
texts are not read. -/
def step : Mode → Char → List Lexeme × Mode
  | .between, c => start L c
  | .word chars, c =>
    if L.part c then ([], .word (c :: chars))
    else (wordLexeme chars.reverse :: (start L c).1, (start L c).2)
  | .number chars, c =>
    if (chars.head?.any fun prev => numberGoesOn prev c) then ([], .number (c :: chars))
    else (numberLexeme chars.reverse :: (start L c).1, (start L c).2)
  | .text chars, c => textStep chars c
  | .escape chars, c =>
    if isOctal c then
      ([], .octal chars (c.toNat - '0'.toNat) (if c ≤ '3' then 2 else 1))
    else match escaped? c with
      | some d => ([], .text (d :: chars))
      | none => ([.bad], .stopped)
  | .octal chars value left, c =>
    if isOctal c ∧ 0 < left then
      ([], .octal chars (8 * value + (c.toNat - '0'.toNat)) (left - 1))
    else textStep (Char.ofNat value :: chars) c
  | .twoQuotes, c =>
    if c = '"' then ([.bad], .stopped)
    else (.string "" :: (start L c).1, (start L c).2)
  | .mark m, c =>
    match joint? m c with
    | some l => ([l], .between)
    | none => (markLexeme m :: (start L c).1, (start L c).2)
  | .stopped, _ => ([], .stopped)

/-- What is left at the end of the text. -/
def finish : Mode → List Lexeme
  | .between | .stopped => []
  | .word chars => [wordLexeme chars.reverse]
  | .number chars => [numberLexeme chars.reverse]
  | .mark m => [markLexeme m]
  | .twoQuotes => [.string ""]
  | .text _ | .escape _ | .octal .. => [.bad]

def lexemesFrom (mode : Mode) : List Char → List Lexeme
  | [] => finish mode
  | c :: cs => (step L mode c).1 ++ lexemesFrom (step L mode c).2 cs

/-- The lexemes of a text. -/
def lexemes (text : String) : List Lexeme := lexemesFrom L .between text.toList

/-! ### Single lexemes -/

section
variable {L}

theorem ne_of_start {c d : Char} (hc : L.start c = true) (hd : d.toNat < 128)
    (hno : (d.isAlpha || d == '_' || d == '$') = false) : c ≠ d := by
  intro heq
  subst heq
  rw [L.ascii_start c hd, hno] at hc
  cases hc

theorem isDigit_of_start {c : Char} (hc : L.start c = true) : c.isDigit = false := by
  have hall : ∀ n < 58, 48 ≤ n →
      ((Char.ofNat n).isAlpha || Char.ofNat n == '_' || Char.ofNat n == '$') = false := by decide
  cases h : c.isDigit with
  | false => rfl
  | true =>
    have hrange : 48 ≤ c.toNat ∧ c.toNat ≤ 57 := Char.isDigit_iff_toNat.mp h
    have hno := hall c.toNat (by omega) hrange.1
    rw [Char.ofNat_toNat] at hno
    exact absurd rfl (ne_of_start hc (by omega) hno)

theorem start_of_start {c : Char} (hc : L.start c = true) : start L c = ([], .word [c]) := by
  have hne : ∀ d : Char, d.toNat < 128 → (d.isAlpha || d == '_' || d == '$') = false → c ≠ d :=
    fun d => ne_of_start hc
  have hblank : isBlank c = false := by
    simp [isBlank, hne ' ' (by decide) (by decide), hne '\t' (by decide) (by decide),
      hne '\n' (by decide) (by decide), hne '\r' (by decide) (by decide),
      hne '\x0c' (by decide) (by decide)]
  have hmark : isMark c = false := by
    simp [isMark, hne '+' (by decide) (by decide), hne '-' (by decide) (by decide),
      hne '=' (by decide) (by decide), hne '<' (by decide) (by decide),
      hne '.' (by decide) (by decide)]
  simp [start, hblank, hmark, isDigit_of_start hc, hc, hne '(' (by decide) (by decide),
    hne ')' (by decide) (by decide), hne ',' (by decide) (by decide), hne '"' (by decide) (by decide)]

theorem lexemesFrom_wordChars {word rest : List Char} (hword : ∀ c ∈ word, L.part c = true)
    (hrest : ∀ c ∈ rest.head?, L.part c = false) (chars : List Char) :
    lexemesFrom L (.word chars) (word ++ rest) =
      wordLexeme (chars.reverse ++ word) :: lexemesFrom L .between rest := by
  induction word generalizing chars with
  | nil =>
    cases rest with
    | nil => simp [lexemesFrom, finish]
    | cons c cs =>
      have hc : L.part c = false := hrest c rfl
      simp [lexemesFrom, step, hc]
  | cons c word ih =>
    have hc : L.part c = true := hword c List.mem_cons_self
    have htail := ih (fun d hd => hword d (List.mem_cons_of_mem _ hd)) (c :: chars)
    simp only [List.cons_append, lexemesFrom, step, hc, if_true, List.nil_append, htail,
      List.reverse_cons, List.append_assoc]

/-- The text goes on with something that cannot belong to a word. -/
def EndsWord (rest : List Char) : Prop :=
  ∀ c ∈ rest.head?, c = ' ' ∨ c = '(' ∨ c = ')' ∨ c = ',' ∨ c = '.' ∨ c = '+' ∨ c = ';'

theorem part_of_endsWord {rest : List Char} (h : EndsWord rest) :
    ∀ c ∈ rest.head?, L.part c = false := by
  intro c hc
  rcases h c hc with rfl | rfl | rfl | rfl | rfl | rfl | rfl <;>
    rw [L.ascii_part _ (by decide)] <;> decide

theorem lexemesFrom_word {word rest : List Char} (hword : L.Identifier word) (hrest : EndsWord rest) :
    lexemesFrom L .between (word ++ rest) =
      .word (String.ofList word) :: lexemesFrom L .between rest := by
  obtain ⟨⟨c, cs, rfl, hc⟩, hpart, hfree⟩ := hword
  have hne : String.ofList (c :: cs) ≠ "this" := fun h => hfree (by rw [h]; decide)
  have hchars := lexemesFrom_wordChars (fun d hd => hpart d (List.mem_cons_of_mem _ hd))
    (part_of_endsWord hrest) [c]
  have hlexeme : wordLexeme (c :: cs) = .word (String.ofList (c :: cs)) := by
    rw [wordLexeme, if_neg hne, if_neg hfree]
  rw [List.cons_append, lexemesFrom, step, start_of_start hc, List.nil_append, hchars,
    List.reverse_singleton, List.singleton_append, hlexeme]

theorem lexemesFrom_this {rest : List Char} (hrest : EndsWord rest) :
    lexemesFrom L .between ("this".toList ++ rest) = .this :: lexemesFrom L .between rest := by
  have hstart : L.start 't' = true := by rw [L.ascii_start _ (by decide)]; decide
  have hletters : ∀ c ∈ ['h', 'i', 's'], c.toNat < 128 ∧
      (c.isAlphanum || c == '_' || c == '$' || isIgnorable c) = true := by
    simp only [List.forall_mem_cons, List.not_mem_nil, false_imp_iff, implies_true, and_true]
    decide
  have hpart : ∀ c ∈ ['h', 'i', 's'], L.part c = true := by
    intro c hc
    rw [L.ascii_part c (hletters c hc).1, (hletters c hc).2]
  have hchars := lexemesFrom_wordChars hpart (part_of_endsWord hrest) ['t']
  have htext : "this".toList ++ rest = 't' :: (['h', 'i', 's'] ++ rest) := rfl
  rw [htext, lexemesFrom, step, start_of_start hstart, List.nil_append, hchars]
  rfl

/-! #### Numbers -/

/-- The characters are one number with `prev` in front of them, and a further sign would not belong
to it. -/
def Runs : Char → List Char → Prop
  | prev, [] => prev ≠ 'e' ∧ prev ≠ 'E'
  | prev, c :: cs => numberGoesOn prev c = true ∧ Runs c cs

/-- The text of a number. -/
def NumberText (cs : List Char) : Prop := ∃ c tail, cs = c :: tail ∧ c.isDigit = true ∧ Runs c tail

def EndsNumber (rest : List Char) : Prop :=
  ∀ c ∈ rest.head?, c = ' ' ∨ c = ')' ∨ c = ',' ∨ c = '+' ∨ c = ';'

theorem lexemesFrom_numberChars {cs rest : List Char} {prev : Char} (hruns : Runs prev cs)
    (hrest : EndsNumber rest) (chars : List Char) :
    lexemesFrom L (.number (prev :: chars)) (cs ++ rest) =
      numberLexeme ((prev :: chars).reverse ++ cs) :: lexemesFrom L .between rest := by
  induction cs generalizing prev chars with
  | nil =>
    cases rest with
    | nil => simp [lexemesFrom, finish]
    | cons c cs =>
      have hc : numberGoesOn prev c = false := by
        rcases hrest c rfl with rfl | rfl | rfl | rfl | rfl
        · rfl
        · rfl
        · rfl
        · simp [numberGoesOn, hruns.1, hruns.2]
        · rfl
      simp [lexemesFrom, step, hc]
  | cons c cs ih =>
    have hc : numberGoesOn prev c = true := hruns.1
    have htail := ih hruns.2 (prev :: chars)
    simp only [List.cons_append, lexemesFrom, step, List.head?_cons, Option.any_some, hc, if_true,
      List.nil_append, htail, List.reverse_cons, List.append_assoc]

theorem start_of_isDigit {c : Char} (hc : c.isDigit = true) : start L c = ([], .number [c]) := by
  have hne : ∀ d : Char, d.isDigit = false → c ≠ d := by
    intro d hd heq
    rw [heq, hd] at hc
    cases hc
  simp [start, isBlank, isMark, hc, hne ' ' rfl, hne '\t' rfl, hne '\n' rfl, hne '\r' rfl,
    hne '\x0c' rfl, hne '(' rfl, hne ')' rfl, hne ',' rfl, hne '"' rfl, hne '+' rfl, hne '-' rfl,
    hne '=' rfl, hne '<' rfl, hne '.' rfl]

theorem lexemesFrom_number {cs rest : List Char} (hcs : NumberText cs) (hrest : EndsNumber rest) :
    lexemesFrom L .between (cs ++ rest) = numberLexeme cs :: lexemesFrom L .between rest := by
  obtain ⟨c, tail, rfl, hdigit, hruns⟩ := hcs
  have hchars := lexemesFrom_numberChars (L := L) hruns hrest []
  rw [List.cons_append, lexemesFrom, step, start_of_isDigit hdigit, List.nil_append, hchars]
  rfl

/-- Characters that belong to a number wherever they stand in it. -/
def isPlain (c : Char) : Bool := c.isAlphanum || c == '.'

theorem numberGoesOn_of_isPlain {c : Char} (hc : isPlain c = true) (prev : Char) :
    numberGoesOn prev c = true := by
  simp only [isPlain] at hc
  simp [numberGoesOn, hc]

theorem isPlain_of_isDigit {c : Char} (hc : c.isDigit = true) : isPlain c = true := by
  simp [isPlain, Char.isAlphanum, hc]

theorem runs_append {cs tail : List Char} {prev c : Char} (hcs : ∀ d ∈ cs, isPlain d = true)
    (hc : isPlain c = true) (htail : Runs c tail) : Runs prev (cs ++ c :: tail) := by
  induction cs generalizing prev with
  | nil => exact ⟨numberGoesOn_of_isPlain hc prev, htail⟩
  | cons d cs ih =>
    exact ⟨numberGoesOn_of_isPlain (hcs d List.mem_cons_self) prev,
      ih fun d hd => hcs d (List.mem_cons_of_mem _ hd)⟩

theorem runs_digits {cs : List Char} {c : Char} (hc : c.isDigit = true)
    (hcs : ∀ d ∈ cs, d.isDigit = true) : Runs c cs := by
  induction cs generalizing c with
  | nil => exact ⟨fun h => by simp [h] at hc, fun h => by simp [h] at hc⟩
  | cons d cs ih =>
    have hd : d.isDigit = true := hcs d List.mem_cons_self
    exact ⟨numberGoesOn_of_isPlain (isPlain_of_isDigit hd) c,
      ih hd fun x hx => hcs x (List.mem_cons_of_mem _ hx)⟩

/-- Digits and points, the last character a digit. -/
theorem numberText_append {front back : List Char} (hfront : ∀ c ∈ front, isPlain c = true)
    (hdigit : ∀ c ∈ front.head?, c.isDigit = true) (hback : ∀ c ∈ back, c.isDigit = true)
    (hne : back ≠ []) : NumberText (front ++ back) := by
  cases back with
  | nil => exact absurd rfl hne
  | cons d back =>
    have hd : d.isDigit = true := hback d List.mem_cons_self
    have hruns := runs_digits hd fun x hx => hback x (List.mem_cons_of_mem _ hx)
    cases front with
    | nil => exact ⟨d, back, rfl, hd, hruns⟩
    | cons c front =>
      exact ⟨c, front ++ d :: back, rfl, hdigit c rfl,
        runs_append (fun x hx => hfront x (List.mem_cons_of_mem _ hx)) (isPlain_of_isDigit hd) hruns⟩

theorem numberText_toDigits (n : Nat) : NumberText (Nat.toDigits 10 n) := by
  have htext : NumberText ([] ++ Nat.toDigits 10 n) :=
    numberText_append nofun nofun Numeral.isDigit_toDigits Nat.toDigits_ne_nil
  exact htext

theorem numberText_long (n : Nat) : NumberText (Nat.toDigits 10 n ++ ['L']) := by
  have hdigit : ∀ c ∈ Nat.toDigits 10 n, c.isDigit = true := Numeral.isDigit_toDigits
  have hne : Nat.toDigits 10 n ≠ [] := Nat.toDigits_ne_nil
  obtain ⟨c, cs, heq⟩ := List.exists_cons_of_ne_nil hne
  rw [heq] at hdigit ⊢
  refine ⟨c, cs ++ ['L'], rfl, hdigit c List.mem_cons_self, ?_⟩
  exact runs_append (fun d hd => isPlain_of_isDigit (hdigit d (List.mem_cons_of_mem _ hd))) rfl
    ⟨by decide, by decide⟩

theorem numberLexeme_toDigits (n : Nat) : numberLexeme (Nat.toDigits 10 n) = .integer n false := by
  rw [numberLexeme, (Numeral.ofChars?_toDigits n).1]
  simp [Numeral.isWhole, Numeral.ofDigits_toDigits]

theorem numberLexeme_long (n : Nat) :
    numberLexeme (Nat.toDigits 10 n ++ ['L']) = .integer n true := by
  have hsuffix : Numeral.NoDigit ['L'] := by simp [Numeral.NoDigit]
  have hnone : Numeral.ofChars? (Nat.toDigits 10 n ++ ['L']) = none :=
    Numeral.ofChars?_append (Numeral.whole_toDigits n) hsuffix
  rw [numberLexeme, hnone]
  simp [(Numeral.ofChars?_toDigits n).1, Numeral.isWhole, Numeral.ofDigits_toDigits]

theorem numberLexeme_magnitude {x : Binary64} (hx : x.isFinite) :
    numberLexeme (NumberStyle.listing.magnitudeText x) = .real x.abs := by
  obtain ⟨n, hn, hwhole, hnearest⟩ := spells_magnitude hx
  simp [numberLexeme, hn, hwhole, hnearest]

/-- Digits with a point between them. -/
theorem numberText_point {front back : List Char} (hfront : ∀ c ∈ front, c.isDigit = true)
    (hne : front ≠ []) (hback : ∀ c ∈ back, c.isDigit = true) (hne' : back ≠ []) :
    NumberText (front ++ '.' :: back) := by
  obtain ⟨c, front, rfl⟩ := List.exists_cons_of_ne_nil hne
  have htext : NumberText ((c :: front ++ ['.']) ++ back) := by
    refine numberText_append ?_ ?_ hback hne'
    · intro d hd
      rcases List.mem_append.mp hd with hd | hd
      · exact isPlain_of_isDigit (hfront d hd)
      · rw [List.mem_singleton.mp hd]
        rfl
    · intro d hd
      obtain rfl : c = d := by simpa using hd
      exact hfront c List.mem_cons_self
  simpa using htext

theorem numberText_positional (d : Decimal) :
    NumberText (NumberStyle.listing.positionalText d) := by
  have hdigit : ∀ c ∈ Nat.toDigits 10 d.digits, c.isDigit = true := Numeral.isDigit_toDigits
  have hne : Nat.toDigits 10 d.digits ≠ [] := Nat.toDigits_ne_nil
  unfold NumberStyle.positionalText
  by_cases he : 0 ≤ d.exponent
  · rw [if_pos he]
    refine numberText_point ?_ (by simp [hne]) (List.all_eq_true.mp (by decide)) (by decide)
    intro c hc
    exact (List.mem_append.mp hc).elim (hdigit c) (Numeral.isDigit_zeros c)
  · rw [if_neg he]
    have hall : ∀ n, ∀ c ∈ NumberStyle.zeros n ++ Nat.toDigits 10 d.digits, c.isDigit = true :=
      fun n c hc => (List.mem_append.mp hc).elim (Numeral.isDigit_zeros c) (hdigit c)
    have hlength : ∀ n, (NumberStyle.zeros n).length = n := fun n => List.length_replicate
    refine numberText_point (fun c hc => hall _ c (List.mem_of_mem_take hc)) ?_
      (fun c hc => hall _ c (List.mem_of_mem_drop hc)) ?_
    · refine List.ne_nil_of_length_pos ?_
      rw [List.length_take, List.length_append, hlength]
      omega
    · refine List.ne_nil_of_length_pos ?_
      rw [List.length_drop, List.length_append, hlength]
      omega

/-- An exponent that may have a minus sign. -/
theorem runs_exponent (minus : Bool) (n : Nat) :
    Runs 'e' ((if minus then ['-'] else []) ++ Nat.toDigits 10 n) := by
  obtain ⟨c, tail, htail, hdigit, hruns⟩ := numberText_toDigits n
  have hgoes : ∀ prev, numberGoesOn prev c = true :=
    numberGoesOn_of_isPlain (isPlain_of_isDigit hdigit)
  rw [htail]
  cases minus with
  | false => exact ⟨hgoes 'e', hruns⟩
  | true => exact ⟨rfl, hgoes '-', hruns⟩

theorem numberText_exponent (d : Decimal) : NumberText (NumberStyle.listing.exponentText d) := by
  have hdigit : ∀ c ∈ Nat.toDigits 10 d.digits, c.isDigit = true := Numeral.isDigit_toDigits
  have hne : Nat.toDigits 10 d.digits ≠ [] := Nat.toDigits_ne_nil
  have hexponent := runs_exponent (decide (d.leading < 0)) d.leading.natAbs
  unfold NumberStyle.exponentText
  simp only [NumberStyle.listing, Bool.false_eq_true, if_false, List.append_assoc, List.cons_append,
    decide_eq_true_eq] at hexponent ⊢
  generalize Nat.toDigits 10 d.digits = ds at *
  obtain ⟨c, rest, rfl⟩ := List.exists_cons_of_ne_nil hne
  have hc : c.isDigit = true := hdigit c List.mem_cons_self
  cases rest with
  | nil => exact ⟨c, _, rfl, hc, numberGoesOn_of_isPlain rfl c, hexponent⟩
  | cons c' rest =>
    refine ⟨c, _, rfl, hc, runs_append ?_ rfl hexponent⟩
    intro x hx
    rcases List.mem_cons.mp hx with rfl | hx
    · rfl
    · exact isPlain_of_isDigit (hdigit x (List.mem_cons_of_mem _ hx))

theorem numberText_magnitude (x : Binary64) : NumberText (NumberStyle.listing.magnitudeText x) := by
  unfold NumberStyle.magnitudeText
  simp only
  split
  · exact numberText_positional _
  · exact numberText_exponent _

/-! #### Strings -/

theorem isOctal_octalDigit (n : Nat) :
    isOctal (octalDigit n) = true ∧ (octalDigit n).toNat - 48 = n % 8 := by
  have hall : ∀ m < 8, isOctal (Char.ofNat ('0'.toNat + m)) = true ∧
      (Char.ofNat ('0'.toNat + m)).toNat - 48 = m := by decide
  exact hall (n % 8) (Nat.mod_lt _ (by decide))

theorem octalDigit_le {n : Nat} (hn : n < 4) : octalDigit n ≤ '3' := by
  revert n
  decide

/-- After its last digit an octal escape is a character like any other. -/
theorem lexemesFrom_octal (chars : List Char) (value : Nat) (cs : List Char) :
    lexemesFrom L (.octal chars value 0) cs = lexemesFrom L (.text (Char.ofNat value :: chars)) cs := by
  cases cs with
  | nil => rfl
  | cons c cs => simp [lexemesFrom, step]

theorem lexemesFrom_escapeChar (chars : List Char) (c : Char) (rest : List Char) :
    lexemesFrom L (.text chars) (escapeChar c ++ rest) = lexemesFrom L (.text (c :: chars)) rest := by
  unfold escapeChar
  split
  case h_6 _ hquote hback hline hreturn htab =>
    by_cases hcontrol : isControl c = true
    · have hn : c.toNat < 160 := by
        simp only [isControl, Bool.or_eq_true, Bool.and_eq_true, decide_eq_true_eq] at hcontrol
        omega
      have hvalue : 8 * (8 * (c.toNat / 64 % 8) + c.toNat / 8 % 8) + c.toNat % 8 = c.toNat := by omega
      have hfirst : octalDigit (c.toNat / 64) ≤ '3' := octalDigit_le (by omega)
      rw [if_pos hcontrol]
      have hdigits : lexemesFrom L (.text chars) ('\\' :: octal c.toNat ++ rest) =
          lexemesFrom L (.octal chars c.toNat 0) rest := by
        simp [octal, lexemesFrom, step, textStep, (isOctal_octalDigit _).1, (isOctal_octalDigit _).2,
          hfirst, hvalue]
      rw [hdigits, lexemesFrom_octal, Char.ofNat_toNat]
    · have hq : c ≠ '"' := hquote
      have hb : c ≠ '\\' := hback
      have hl : c ≠ '\n' := hline
      have hr : c ≠ '\r' := hreturn
      rw [if_neg hcontrol]
      simp [lexemesFrom, step, textStep, hq, hb, hl, hr]
  all_goals rfl

theorem lexemesFrom_text (s : List Char) (chars rest : List Char) :
    lexemesFrom L (.text chars) (escapeChars s ++ rest) =
      lexemesFrom L (.text (s.reverse ++ chars)) rest := by
  induction s generalizing chars with
  | nil => rfl
  | cons c s ih =>
    have hcons : escapeChars (c :: s) = escapeChar c ++ escapeChars s := List.flatMap_cons
    rw [hcons, List.append_assoc, lexemesFrom_escapeChar, ih, List.reverse_cons, List.append_assoc,
      List.singleton_append]

theorem lexemesFrom_string (s : String) {rest : List Char} (hrest : ∀ c ∈ rest.head?, c ≠ '"') :
    lexemesFrom L .between ((quote s).toList ++ rest) = .string s :: lexemesFrom L .between rest := by
  have hopen : lexemesFrom L .between ((quote s).toList ++ rest) =
      lexemesFrom L (.text []) (escapeChars s.toList ++ '"' :: rest) := by
    have htext : (quote s).toList ++ rest = '"' :: (escapeChars s.toList ++ '"' :: rest) := by
      simp [quote, escape]
    rw [htext]
    rfl
  rw [hopen, lexemesFrom_text, List.append_nil, lexemesFrom, step, textStep, if_pos rfl]
  by_cases hempty : s.toList = []
  · obtain rfl : s = "" := by simpa using hempty
    cases rest with
    | nil => rfl
    | cons c cs =>
      have hc : c ≠ '"' := hrest c rfl
      simp [lexemesFrom, step, hc]
  · simp [hempty]

/-! #### Operators -/

theorem start_of_isMark {m : Char} (hm : isMark m = true) : start L m = ([], .mark m) := by
  simp only [isMark, Bool.or_eq_true, beq_iff_eq] at hm
  rcases hm with (((rfl | rfl) | rfl) | rfl) | rfl <;> rfl

/-- A character that stands apart from what follows is a lexeme of its own. -/
theorem lexemesFrom_mark {m c : Char} {cs : List Char} (hm : isMark m = true)
    (hc : joint? m c = none) : lexemesFrom L .between (m :: c :: cs) =
      markLexeme m :: lexemesFrom L .between (c :: cs) := by
  simp only [lexemesFrom, step, start_of_isMark hm, hc, List.nil_append, List.cons_append]

theorem joint?_minus {c : Char} (hc : c.isDigit = true) : joint? '-' c = none := by
  have hne : ∀ d : Char, d.isDigit = false → c ≠ d := by
    intro d hd heq
    rw [heq, hd] at hc
    cases hc
  simp [joint?, hne '-' rfl, hne '=' rfl, hne '>' rfl]

theorem joint?_dot {c : Char} (hc : c.isDigit = false) : joint? '.' c = none := by
  simp [joint?, hc]

end

end RpgLowering.Target
