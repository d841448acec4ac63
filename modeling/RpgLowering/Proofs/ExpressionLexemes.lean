import RpgLowering.Proofs.Lexemes

/-! Expressions as sequences of lexemes: the printed text of an expression falls into the lexemes of
its parts, with parentheses where an operand needs them. -/
namespace RpgLowering.Target
open Text

variable (L : Letters)

/-- The name is one or more identifiers with points between them. -/
def Letters.Dotted (name : String) : Prop := ∀ word ∈ name.toList.splitOn '.', L.Identifier word

instance (name : String) : Decidable (L.Dotted name) :=
  inferInstanceAs (Decidable (∀ word ∈ name.toList.splitOn '.', L.Identifier word))

def Expr.isNumber : Expr → Bool
  | .int _ | .double _ => true
  | _ => false

mutual

/-- Names are identifiers, numbers are finite, and nothing is selected from a number. -/
def Expr.Readable : Expr → Prop
  | .int _ | .string _ | .this => True
  | .double x => x.isFinite = true
  | .name n => L.Dotted n
  | .field scope n => scope.isNumber = false ∧ scope.Readable ∧ L.Identifier n.toList
  | .assign target value => target.Readable ∧ value.Readable
  | .binary _ left right => left.Readable ∧ right.Readable
  | .increment e => e.Readable
  | .call none n args => L.Identifier n.toList ∧ Expr.AllReadable args
  | .call (some scope) n args =>
    scope.isNumber = false ∧ scope.Readable ∧ L.Identifier n.toList ∧ Expr.AllReadable args

def Expr.AllReadable : List Expr → Prop
  | [] => True
  | e :: es => e.Readable ∧ Expr.AllReadable es

end

def signedLexemes (negative : Bool) (l : Lexeme) : List Lexeme := if negative then [.minus, l] else [l]

def dottedLexemes : List (List Char) → List Lexeme
  | [] => []
  | [word] => [.word (String.ofList word)]
  | word :: words => .word (String.ofList word) :: .dot :: dottedLexemes words

def wrapLexemes (least : Nat) (e : Expr) (ls : List Lexeme) : List Lexeme :=
  if e.precedence < least then .openParen :: (ls ++ [.closeParen]) else ls

def BinaryOp.lexeme : BinaryOp → Lexeme
  | plus => .plus
  | equals => .equals
  | atMost => .atMost

/-- Whether a number needs more than 32 bits. -/
def isWide (v : Int64) : Bool := !(-0x80000000 ≤ v.toInt && v.toInt < 0x80000000)

theorem isWide_eq_false_iff {v : Int64} :
    isWide v = false ↔ -0x80000000 ≤ v.toInt ∧ v.toInt < 0x80000000 := by
  simp [isWide]

mutual

/-- The lexemes of an expression, with parentheses where the printed text has them. -/
def Expr.lexemes : Expr → List Lexeme
  | .int v => signedLexemes (v.toInt < 0) (.integer v.toInt.natAbs (isWide v))
  | .double x => signedLexemes x.isNegative (.real x.abs)
  | .string s => [.string s]
  | .this => [.this]
  | .name n => dottedLexemes (n.toList.splitOn '.')
  | .field scope n => wrapLexemes Precedence.primary scope scope.lexemes ++ [.dot, .word n]
  | .assign target value =>
    wrapLexemes Precedence.primary target target.lexemes ++ .assign :: value.lexemes
  | .binary op left right =>
    wrapLexemes op.precedence left left.lexemes ++
      op.lexeme :: wrapLexemes (op.precedence + 1) right right.lexemes
  | .increment e => wrapLexemes Precedence.primary e e.lexemes ++ [.increment]
  | .call none n args => .word n :: .openParen :: (Expr.argLexemes args ++ [.closeParen])
  | .call (some scope) n args =>
    wrapLexemes Precedence.primary scope scope.lexemes ++
      .dot :: .word n :: .openParen :: (Expr.argLexemes args ++ [.closeParen])

def Expr.argLexemes : List Expr → List Lexeme
  | [] => []
  | e :: es => e.lexemes ++ Expr.moreLexemes es

def Expr.moreLexemes : List Expr → List Lexeme
  | [] => []
  | e :: es => .comma :: (e.lexemes ++ Expr.moreLexemes es)

end

/-- What may follow an expression: only a primary one is followed by a point or a sign, and a number
is not followed by a point. -/
def Ends (e : Expr) (rest : List Char) : Prop :=
  ∀ c ∈ rest.head?, c = ' ' ∨ c = ')' ∨ c = ',' ∨ c = ';' ∨ (e.precedence = Precedence.primary ∧
    (c = '+' ∨ (c = '.' ∧ e.isNumber = false)))

/-- What may follow any expression. -/
def EndsLoosely (rest : List Char) : Prop :=
  ∀ c ∈ rest.head?, c = ' ' ∨ c = ')' ∨ c = ',' ∨ c = ';'

section
variable {L}

theorem toList_toString (n : Int) : (toString n).toList =
    if n < 0 then '-' :: Nat.toDigits 10 n.natAbs else Nat.toDigits 10 n.natAbs := by
  rw [Int.toString_eq_repr, Int.repr_eq_if]
  by_cases hn : 0 ≤ n
  · rw [if_pos hn, if_neg (by omega), Nat.repr_eq_ofList_toDigits, String.toList_ofList,
      show n.toNat = n.natAbs by omega]
  · rw [if_neg hn, if_pos (by omega), Nat.repr_eq_ofList_toDigits, String.toList_append,
      String.toList_ofList, String.toList_ofList, show (-n).toNat = n.natAbs by omega]
    rfl

theorem precedence_bounds (e : Expr) :
    Precedence.assignment ≤ e.precedence ∧ e.precedence ≤ Precedence.primary := by
  cases e with
  | int v => rw [Expr.precedence]; split <;> decide
  | double x => rw [Expr.precedence]; split <;> decide
  | binary op left right => rw [Expr.precedence]; cases op <;> decide
  | _ => rw [Expr.precedence]; decide

theorem Ends.of_loose {rest : List Char} (h : EndsLoosely rest) (e : Expr) : Ends e rest := by
  intro c hc
  have hc := h c hc
  tauto

theorem Ends.loose {e : Expr} {rest : List Char} (h : Ends e rest)
    (he : e.precedence ≠ Precedence.primary) (e' : Expr) : Ends e' rest := by
  refine .of_loose (fun c hc => ?_) e'
  have hc := h c hc
  tauto

theorem Ends.word {e : Expr} {rest : List Char} (h : Ends e rest) : EndsWord rest := by
  intro c hc
  have hc := h c hc
  tauto

theorem Ends.number {e : Expr} {rest : List Char} (h : Ends e rest) (he : e.isNumber = true) :
    EndsNumber rest := by
  intro c hc
  have hc := h c hc
  simp only [he, Bool.true_eq_false, and_false, or_false] at hc
  tauto

theorem Ends.string {e : Expr} {rest : List Char} (h : Ends e rest) : ∀ c ∈ rest.head?, c ≠ '"' := by
  intro c hc
  rcases h.word c hc with rfl | rfl | rfl | rfl | rfl | rfl | rfl <;> decide

theorem lexemesFrom_space (rest : List Char) :
    lexemesFrom L .between (' ' :: rest) = lexemesFrom L .between rest := rfl

theorem lexemesFrom_openParen (rest : List Char) :
    lexemesFrom L .between ('(' :: rest) = .openParen :: lexemesFrom L .between rest := rfl

theorem lexemesFrom_closeParen (rest : List Char) :
    lexemesFrom L .between (')' :: rest) = .closeParen :: lexemesFrom L .between rest := rfl

theorem lexemesFrom_comma (rest : List Char) :
    lexemesFrom L .between (',' :: rest) = .comma :: lexemesFrom L .between rest := rfl

theorem lexemesFrom_stopped (rest : List Char) : lexemesFrom L .stopped rest = [] := by
  induction rest with
  | nil => rfl
  | cons c rest ih => exact ih

/-- A semicolon belongs to no expression. -/
theorem lexemesFrom_semicolon (rest : List Char) : lexemesFrom L .between (';' :: rest) = [.bad] := by
  have hno : L.start ';' = false := by
    rw [L.ascii_start _ (by decide)]
    decide
  have hstart : start L ';' = ([.bad], .stopped) := by
    simp [start, isBlank, isMark, hno]
  rw [lexemesFrom, step, hstart, lexemesFrom_stopped]
  rfl

theorem lexemesFrom_increment (rest : List Char) :
    lexemesFrom L .between ('+' :: '+' :: rest) = .increment :: lexemesFrom L .between rest := rfl

theorem lexemesFrom_operator (op : BinaryOp) (rest : List Char) :
    lexemesFrom L .between (op.text.toList ++ ' ' :: rest) =
      op.lexeme :: lexemesFrom L .between rest := by
  cases op <;> rfl

theorem lexemesFrom_assign (rest : List Char) :
    lexemesFrom L .between ('=' :: ' ' :: rest) = .assign :: lexemesFrom L .between rest := rfl

/-- A point that no digit follows. -/
theorem lexemesFrom_dot {cs : List Char} (hcs : ∀ c ∈ cs.head?, c.isDigit = false) :
    lexemesFrom L .between ('.' :: cs) = .dot :: lexemesFrom L .between cs := by
  cases cs with
  | nil => rfl
  | cons c cs => exact lexemesFrom_mark rfl (joint?_dot (hcs c rfl))

theorem head?_identifier {word : List Char} (hword : L.Identifier word) (rest : List Char) :
    ∀ c ∈ (word ++ rest).head?, c.isDigit = false := by
  obtain ⟨c, cs, rfl, hc⟩ := hword.start
  intro d hd
  obtain rfl : c = d := by simpa using hd
  exact isDigit_of_start hc

theorem lexemesFrom_dotted {words : List (List Char)} (hwords : ∀ word ∈ words, L.Identifier word)
    (hne : words ≠ []) {rest : List Char} (hrest : EndsWord rest) :
    lexemesFrom L .between (['.'].intercalate words ++ rest) =
      dottedLexemes words ++ lexemesFrom L .between rest := by
  induction words with
  | nil => exact absurd rfl hne
  | cons word words ih =>
    have hword := hwords word List.mem_cons_self
    cases words with
    | nil => simpa [dottedLexemes] using lexemesFrom_word hword hrest
    | cons word' words =>
      have htail := ih (fun w hw => hwords w (List.mem_cons_of_mem _ hw)) (List.cons_ne_nil _ _)
      have hhead : ∀ c ∈ (['.'].intercalate (word' :: words) ++ rest).head?, c.isDigit = false := by
        have hword' := hwords word' (List.mem_cons_of_mem _ List.mem_cons_self)
        cases words with
        | nil => simpa using head?_identifier hword' rest
        | cons w ws =>
          rw [List.intercalate_cons_cons, List.append_assoc, List.append_assoc]
          exact head?_identifier hword' _
      rw [List.intercalate_cons_cons, List.append_assoc, List.append_assoc,
        lexemesFrom_word hword (by simp [EndsWord]), List.singleton_append, lexemesFrom_dot hhead, htail]
      rfl

/-- The text of an expression falls into its lexemes, whatever may follow. -/
def Falls (L : Letters) (e : Expr) : Prop := ∀ rest, Ends e rest →
  lexemesFrom L .between (e.text.toList ++ rest) = e.lexemes ++ lexemesFrom L .between rest

theorem Falls.wrap {e : Expr} (h : Falls L e) {least : Nat} {rest : List Char}
    (hrest : least ≤ e.precedence → Ends e rest) :
    lexemesFrom L .between ((wrap least e e.text).toList ++ rest) =
      wrapLexemes least e e.lexemes ++ lexemesFrom L .between rest := by
  unfold Target.wrap wrapLexemes
  by_cases hlow : e.precedence < least
  · have hinside := h (')' :: rest) (.of_loose (by simp [EndsLoosely]) e)
    have htext : ("(" ++ e.text ++ ")").toList ++ rest =
        '(' :: (e.text.toList ++ ')' :: rest) := by simp
    rw [if_pos hlow, if_pos hlow, htext, lexemesFrom_openParen, hinside, lexemesFrom_closeParen]
    simp
  · rw [if_neg hlow, if_neg hlow]
    exact h rest (hrest (by omega))

/-- An operand that something is selected from, or that is counted up. -/
theorem Falls.scope {e : Expr} (h : Falls L e) {rest : List Char}
    (hrest : ∀ c ∈ rest.head?, c = '+' ∨ (c = '.' ∧ e.isNumber = false)) :
    lexemesFrom L .between ((Target.wrap Precedence.primary e e.text).toList ++ rest) =
      wrapLexemes Precedence.primary e e.lexemes ++ lexemesFrom L .between rest := by
  refine h.wrap fun hle c hc => ?_
  have hprimary := Nat.le_antisymm (precedence_bounds e).2 hle
  exact .inr (.inr (.inr (.inr ⟨hprimary, hrest c hc⟩)))

/-- A minus sign in front of a number. -/
theorem lexemesFrom_signed {cs rest : List Char} (negative : Bool) (hcs : NumberText cs)
    (hrest : EndsNumber rest) :
    lexemesFrom L .between ((if negative then '-' :: cs else cs) ++ rest) =
      signedLexemes negative (numberLexeme cs) ++ lexemesFrom L .between rest := by
  have hnumber := lexemesFrom_number (L := L) hcs hrest
  cases negative with
  | false => exact hnumber
  | true =>
    obtain ⟨c, tail, rfl, hdigit, -⟩ := hcs
    rw [if_pos rfl, List.cons_append, List.cons_append, lexemesFrom_mark rfl (joint?_minus hdigit),
      ← List.cons_append, hnumber]
    rfl

/-- An integer is written as its digits, with the suffix of a long if it is wide. -/
def intDigits (v : Int64) : List Char :=
  Nat.toDigits 10 v.toInt.natAbs ++ if isWide v then ['L'] else []

theorem toList_text_int (v : Int64) : (Expr.int v).text.toList =
    if v.toInt < 0 then '-' :: intDigits v else intDigits v := by
  rw [Expr.text, intText, intDigits]
  cases hw : isWide v with
  | false =>
    rw [if_pos (isWide_eq_false_iff.mp hw), toList_toString]
    simp
  | true =>
    have hnot : ¬ (-0x80000000 ≤ v.toInt ∧ v.toInt < 0x80000000) := by
      rw [← isWide_eq_false_iff, hw]
      decide
    rw [if_neg hnot, String.toList_append, toList_toString]
    split <;> simp

theorem numberText_intDigits (v : Int64) : NumberText (intDigits v) := by
  unfold intDigits
  cases isWide v with
  | false => simpa using numberText_toDigits v.toInt.natAbs
  | true => exact numberText_long v.toInt.natAbs

theorem numberLexeme_intDigits (v : Int64) :
    numberLexeme (intDigits v) = .integer v.toInt.natAbs (isWide v) := by
  unfold intDigits
  cases isWide v with
  | false => simpa using numberLexeme_toDigits v.toInt.natAbs
  | true => exact numberLexeme_long v.toInt.natAbs

theorem toList_text_double {x : Binary64} (hx : x.isFinite = true) : (Expr.double x).text.toList =
    if x.isNegative then '-' :: NumberStyle.listing.magnitudeText x
    else NumberStyle.listing.magnitudeText x := by
  have hexponent : x.exponentField ≠ 2047 := by simpa [Binary64.isFinite] using hx
  simp [Expr.text, doubleText, NumberStyle.text, NumberStyle.finiteText, Binary64.isNaN,
    Binary64.isInfinite, hexponent]

theorem falls_int (v : Int64) : Falls L (.int v) := by
  intro rest hrest
  have hsigned := lexemesFrom_signed (L := L) (decide (v.toInt < 0)) (numberText_intDigits v)
    (hrest.number rfl)
  simp only [decide_eq_true_eq] at hsigned
  rw [toList_text_int, hsigned, numberLexeme_intDigits, Expr.lexemes]

theorem falls_double {x : Binary64} (hx : x.isFinite = true) : Falls L (.double x) := by
  intro rest hrest
  rw [toList_text_double hx, lexemesFrom_signed _ (numberText_magnitude x) (hrest.number rfl),
    numberLexeme_magnitude hx, Expr.lexemes]

theorem toList_commaSeparated_cons (t t' : String) (ts : List String) :
    (commaSeparated (t :: t' :: ts)).toList =
      t.toList ++ ',' :: ' ' :: (commaSeparated (t' :: ts)).toList := by
  simp [commaSeparated, String.toList_intercalate]

theorem lexemesFrom_arguments {es : List Expr} (h : ∀ a ∈ es, Falls L a) {rest : List Char}
    (hrest : EndsLoosely rest) :
    lexemesFrom L .between ((commaSeparated (Expr.texts es)).toList ++ rest) =
      Expr.argLexemes es ++ lexemesFrom L .between rest := by
  induction es with
  | nil => rfl
  | cons e es ih =>
    have htail := ih fun a ha => h a (List.mem_cons_of_mem _ ha)
    cases es with
    | nil =>
      have hfirst := h e List.mem_cons_self rest (.of_loose hrest e)
      simpa [commaSeparated, Expr.texts, Expr.argLexemes, Expr.moreLexemes] using hfirst
    | cons e' es =>
      have htext : (commaSeparated (Expr.texts (e :: e' :: es))).toList = e.text.toList ++
          ',' :: ' ' :: (commaSeparated (Expr.texts (e' :: es))).toList :=
        toList_commaSeparated_cons _ _ _
      have hfirst := h e List.mem_cons_self
        (',' :: ' ' :: ((commaSeparated (Expr.texts (e' :: es))).toList ++ rest))
        (.of_loose (by simp [EndsLoosely]) e)
      rw [htext, List.append_assoc, List.cons_append, List.cons_append, hfirst, lexemesFrom_comma,
        lexemesFrom_space, htail]
      simp [Expr.argLexemes, Expr.moreLexemes]

/-- A name with its arguments. -/
theorem lexemesFrom_call {n : String} (hn : L.Identifier n.toList) {args : List Expr}
    (h : ∀ a ∈ args, Falls L a) (rest : List Char) :
    lexemesFrom L .between (n.toList ++ '(' :: ((commaSeparated (Expr.texts args)).toList ++
      ')' :: rest)) =
      .word n :: .openParen :: (Expr.argLexemes args ++ .closeParen :: lexemesFrom L .between rest) := by
  rw [lexemesFrom_word hn (by simp [EndsWord]), lexemesFrom_openParen, String.ofList_toList,
    lexemesFrom_arguments h (by simp [EndsLoosely]), lexemesFrom_closeParen]

mutual

theorem falls (e : Expr) (he : e.Readable L) : Falls L e := by
  match e with
  | .int v => exact falls_int v
  | .double x => exact falls_double he
  | .string s => exact fun rest hrest => lexemesFrom_string s hrest.string
  | .this => exact fun rest hrest => lexemesFrom_this hrest.word
  | .name n =>
    intro rest hrest
    have hwords := lexemesFrom_dotted he (List.splitOn_ne_nil _ _) hrest.word
    rwa [List.intercalate_splitOn] at hwords
  | .field scope n =>
    intro rest hrest
    obtain ⟨hnumber, hscope, hn⟩ := he
    have htext : (Expr.field scope n).text.toList ++ rest =
        (wrap Precedence.primary scope scope.text).toList ++ '.' :: (n.toList ++ rest) := by
      simp [Expr.text]
    rw [htext, (falls scope hscope).scope (by simp [hnumber]), lexemesFrom_dot (head?_identifier hn _),
      lexemesFrom_word hn hrest.word, String.ofList_toList]
    simp [Expr.lexemes]
  | .assign target value =>
    intro rest hrest
    have htext : (Expr.assign target value).text.toList ++ rest =
        (wrap Precedence.primary target target.text).toList ++
          ' ' :: '=' :: ' ' :: ((wrap Precedence.assignment value value.text).toList ++ rest) := by
      simp [Expr.text]
    have hloose : ∀ e, Ends e rest := hrest.loose (by rw [Expr.precedence]; decide)
    have hbare : wrapLexemes Precedence.assignment value value.lexemes = value.lexemes :=
      if_neg (Nat.not_lt.mpr (precedence_bounds value).1)
    rw [htext, (falls target he.1).wrap fun _ => .of_loose (by simp [EndsLoosely]) target, lexemesFrom_space,
      lexemesFrom_assign, (falls value he.2).wrap fun _ => hloose value, hbare]
    simp [Expr.lexemes]
  | .binary op left right =>
    intro rest hrest
    have htext : (Expr.binary op left right).text.toList ++ rest =
        (wrap op.precedence left left.text).toList ++ ' ' :: (op.text.toList ++
          ' ' :: ((wrap (op.precedence + 1) right right.text).toList ++ rest)) := by
      simp [Expr.text]
    have hloose : ∀ e, Ends e rest := hrest.loose (by rw [Expr.precedence]; cases op <;> decide)
    rw [htext, (falls left he.1).wrap fun _ => .of_loose (by simp [EndsLoosely]) left, lexemesFrom_space,
      lexemesFrom_operator, (falls right he.2).wrap fun _ => hloose right]
    simp [Expr.lexemes]
  | .increment e =>
    intro rest hrest
    have htext : (Expr.increment e).text.toList ++ rest =
        (wrap Precedence.primary e e.text).toList ++ '+' :: '+' :: rest := by
      simp [Expr.text]
    rw [htext, (falls e he).scope (by simp), lexemesFrom_increment]
    simp [Expr.lexemes]
  | .call none n args =>
    intro rest hrest
    have htext : (Expr.call none n args).text.toList ++ rest =
        n.toList ++ '(' :: ((commaSeparated (Expr.texts args)).toList ++ ')' :: rest) := by
      simp [Expr.text]
    rw [htext, lexemesFrom_call he.1 (falls_all args he.2)]
    simp [Expr.lexemes]
  | .call (some scope) n args =>
    intro rest hrest
    obtain ⟨hnumber, hscope, hn, hargs⟩ := he
    have htext : (Expr.call (some scope) n args).text.toList ++ rest =
        (wrap Precedence.primary scope scope.text).toList ++ '.' :: (n.toList ++
          '(' :: ((commaSeparated (Expr.texts args)).toList ++ ')' :: rest)) := by
      simp [Expr.text]
    rw [htext, (falls scope hscope).scope (by simp [hnumber]), lexemesFrom_dot (head?_identifier hn _),
      lexemesFrom_call hn (falls_all args hargs)]
    simp [Expr.lexemes]

theorem falls_all (es : List Expr) (hes : Expr.AllReadable L es) : ∀ e ∈ es, Falls L e := by
  match es with
  | [] => exact nofun
  | e :: es =>
    rw [List.forall_mem_cons]
    exact ⟨falls e hes.1, falls_all es hes.2⟩

end

/-- The text of an expression consists of its lexemes. -/
theorem lexemes_text {e : Expr} (he : e.Readable L) : lexemes L e.text = e.lexemes := by
  have hall := falls e he [] (.of_loose (by simp [EndsLoosely]) e)
  rw [List.append_nil] at hall
  rw [lexemes, hall]
  exact List.append_nil _

end

end RpgLowering.Target
