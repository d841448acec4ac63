import RpgLowering.Core.Dump
import RpgLowering.Proofs.Separation

/-! Expressions in the listing of a program. The text of an expression determines it and where it
ends, if names are identifiers and decimal numbers are finite: references stand for one index each, a
number is told from the points behind it, and the other forms differ in their first characters. -/
namespace RpgLowering.Core
open Text
open Target (cut_inj cut_at not_mem_of_runs NumberText Runs numberGoesOn numberText_toDigits
  numberText_magnitude numberLexeme numberLexeme_toDigits numberLexeme_magnitude)

/-! ### Identifiers -/

/-- The letters and digits of names. Any tables will do that are right for ASCII. -/
structure Alphabet where
  letter : Char → Bool
  digit : Char → Bool
  ascii_letter : ∀ c, c.toNat < 128 → letter c = c.isAlpha
  ascii_digit : ∀ c, c.toNat < 128 → digit c = c.isDigit

namespace Alphabet

def ascii : Alphabet where
  letter := Char.isAlpha
  digit := Char.isDigit
  ascii_letter _ _ := rfl
  ascii_digit _ _ := rfl

def part (A : Alphabet) (c : Char) : Bool := A.letter c || A.digit c || c == '_'

/-- A letter or underscore, followed by letters, digits and underscores. -/
structure Identifier (A : Alphabet) (name : String) : Prop where
  start : ∃ c ∈ name.toList.head?, A.letter c = true ∨ c = '_'
  part : ∀ c ∈ name.toList, A.part c = true

theorem identifier_iff {A : Alphabet} {name : String} : A.Identifier name ↔
    (name.toList.head?.any fun c => A.letter c || c == '_') = true ∧
      name.toList.all A.part = true := by
  have hstart : (name.toList.head?.any fun c => A.letter c || c == '_') = true ↔
      ∃ c ∈ name.toList.head?, A.letter c = true ∨ c = '_' := by
    simp [Option.any_eq_true]
  rw [hstart, List.all_eq_true]
  exact ⟨fun h => ⟨h.start, h.part⟩, fun h => ⟨h.1, h.2⟩⟩

instance (A : Alphabet) (name : String) : Decidable (A.Identifier name) :=
  decidable_of_iff _ identifier_iff.symm

/-- A character of ASCII that no name contains. -/
def Mark (c : Char) : Prop := c.toNat < 128 ∧ (c.isAlphanum || c == '_') = false

instance (c : Char) : Decidable (Mark c) := inferInstanceAs (Decidable (_ ∧ _))

variable {A : Alphabet}

theorem part_of_mark {c : Char} (h : Mark c) : A.part c = false := by
  rw [part, A.ascii_letter c h.1, A.ascii_digit c h.1]
  exact h.2

theorem Identifier.not_mem {name : String} (h : A.Identifier name) {c : Char} (hc : Mark c) :
    c ∉ name.toList := by
  intro hmem
  have hpart := h.part c hmem
  rw [part_of_mark hc] at hpart
  cases hpart

end Alphabet

open Alphabet (Mark part_of_mark)

section
variable {A : Alphabet}

/-- No name goes on here. -/
def Stops (A : Alphabet) (rest : List Char) : Prop := ∀ c ∈ rest.head?, A.part c = false

theorem stops_mark {c : Char} (hc : Mark c) (rest : List Char) : Stops A (c :: rest) := by
  intro d hd
  obtain rfl := Option.some.inj hd
  exact part_of_mark hc

/-! ### References -/

/-- A reference is shown by name, or by its index where no name has it. -/
def referenceText (kind : String) (names : List String) (index : Nat) : String :=
  (names[index]?).getD ("<" ++ kind ++ "#" ++ toString index ++ ">")

theorem globalText_eq (p : Program) (id : GlobalId) :
    p.globalText id = referenceText "global" (p.globals.map (·.name)) id.index := by
  unfold Program.globalText Program.global? referenceText
  cases h : p.globals[id.index]? <;> simp [h]

theorem functionText_eq (p : Program) (id : FunctionId) :
    p.functionText id = referenceText "function" (p.functions.map (·.name)) id.index := by
  unfold Program.functionText Program.function? referenceText
  cases h : p.functions[id.index]? <;> simp [h]

/-- Names that can be told apart: different identifiers. -/
structure Named (A : Alphabet) (names : List String) : Prop where
  identifier : ∀ n ∈ names, A.Identifier n
  distinct : names.Nodup

variable {names : List String}

theorem referenceText_cases (hnames : Named A names) (kind : String) (i : Nat) :
    (∃ n, names[i]? = some n ∧ A.Identifier n ∧ referenceText kind names i = n) ∨
      (referenceText kind names i).toList =
        '<' :: (kind.toList ++ '#' :: (Nat.toDigits 10 i ++ ['>'])) := by
  unfold referenceText
  cases h : names[i]? with
  | some n => exact .inl ⟨n, rfl, hnames.identifier n (List.mem_of_getElem? h), rfl⟩
  | none =>
    right
    simp

/-- The text of a reference determines its index and where it ends. -/
theorem referenceText_append_inj (hnames : Named A names) {kind : String} {i j : Nat}
    {rest rest' : List Char} (hrest : Stops A rest) (hrest' : Stops A rest')
    (h : (referenceText kind names i).toList ++ rest =
      (referenceText kind names j).toList ++ rest') : i = j ∧ rest = rest' := by
  have hangle : ∀ {n : String} {front back tail : List Char}, A.Identifier n →
      n.toList ++ front ≠ '<' :: back ++ tail := by
    intro n front back tail hn heq
    obtain ⟨c, hc, -⟩ := hn.start
    obtain ⟨cs, hcs⟩ := List.head?_eq_some_iff.mp hc
    rw [hcs] at heq
    have hmem := hn.not_mem (c := '<') (by decide)
    rw [hcs, (List.cons.inj heq).1] at hmem
    exact hmem List.mem_cons_self
  rcases referenceText_cases hnames kind i with ⟨n, hi, hn, htext⟩ | htext <;>
    rcases referenceText_cases hnames kind j with ⟨n', hj, hn', htext'⟩ | htext' <;>
    rw [htext, htext'] at h
  · obtain ⟨heq, htail⟩ := cut_inj hn.part hn'.part hrest hrest' h
    obtain rfl := String.toList_inj.mp heq
    have hlt := (List.getElem?_eq_some_iff.mp hi).1
    rw [← hj] at hi
    exact ⟨(List.getElem?_inj hlt hnames.distinct).mp hi, htail⟩
  · exact absurd h (hangle hn)
  · exact absurd h.symm (hangle hn')
  · have hdigits : ∀ n, '>' ∉ Nat.toDigits 10 n :=
      fun n hmem => absurd (Numeral.isDigit_toDigits _ hmem) (by decide)
    simp only [List.cons_append, List.append_assoc, List.nil_append] at h
    have htail := (List.cons.inj (List.append_cancel_left (List.cons.inj h).2)).2
    obtain ⟨hij, hend⟩ := cut_at (hdigits i) (hdigits j) htail
    have hvalues := congrArg (fun ds => Numeral.ofDigits (ds.map Numeral.digitValue)) hij
    exact ⟨by simpa only [Numeral.ofDigits_toDigits] using hvalues, hend⟩

end

/-! ### Numbers -/

/-- What may follow an expression. -/
def Ends (rest : List Char) : Prop :=
  rest = [] ∨ ∃ tail, rest = ' ' :: tail ∨ rest = ')' :: tail ∨ rest = '.' :: '.' :: tail

theorem Ends.stops {A : Alphabet} {rest : List Char} (h : Ends rest) : Stops A rest := by
  obtain rfl | ⟨tail, rfl | rfl | rfl⟩ := h
  · exact nofun
  all_goals exact stops_mark (by decide) _

theorem ends_space (tail : List Char) : Ends (' ' :: tail) := .inr ⟨tail, .inl rfl⟩

theorem ends_paren (tail : List Char) : Ends (')' :: tail) := .inr ⟨tail, .inr (.inl rfl)⟩

theorem ends_points (tail : List Char) : Ends ('.' :: '.' :: tail) := .inr ⟨tail, .inr (.inr rfl)⟩

/-- Behind every point there is a digit. -/
def Pointed : List Char → Prop
  | [] => True
  | c :: cs => (c = '.' → ∃ d ∈ cs.head?, d.isDigit = true) ∧ Pointed cs

theorem pointed_append {front back : List Char} (hfront : '.' ∉ front) (hback : Pointed back) :
    Pointed (front ++ back) := by
  induction front with
  | nil => exact hback
  | cons c front ih =>
    rw [List.mem_cons, not_or] at hfront
    exact ⟨fun hc => absurd hc.symm hfront.1, ih hfront.2⟩

theorem pointed_of_not_mem {cs : List Char} (h : '.' ∉ cs) : Pointed cs := by
  have hall : Pointed (cs ++ []) := pointed_append h trivial
  rwa [List.append_nil] at hall

theorem Pointed.behind {front back : List Char} (h : Pointed (front ++ '.' :: back)) :
    ∃ d ∈ back.head?, d.isDigit = true := by
  induction front with
  | nil => exact h.1 rfl
  | cons c front ih => exact ih h.2

/-- The characters of a number, which stands in front of a space, a parenthesis or two points. -/
structure NumberChars (cs : List Char) : Prop where
  pointed : Pointed cs
  space : ' ' ∉ cs
  paren : ')' ∉ cs

theorem NumberChars.eq_nil {a t rest rest' : List Char} (h : NumberChars (a ++ t))
    (hrest : Ends rest) (heq : rest = t ++ rest') : t = [] := by
  cases t with
  | nil => rfl
  | cons c t =>
    rw [List.cons_append] at heq
    obtain rfl | ⟨tail, rfl | rfl | rfl⟩ := hrest
    · cases heq
    · exact absurd (by simp [← (List.cons.inj heq).1]) h.space
    · exact absurd (by simp [← (List.cons.inj heq).1]) h.paren
    · obtain ⟨rfl, htail⟩ := List.cons.inj heq
      obtain ⟨d, hd, hdigit⟩ := h.pointed.behind
      obtain ⟨t', rfl⟩ := List.head?_eq_some_iff.mp hd
      rw [← (List.cons.inj htail).1] at hdigit
      cases hdigit

theorem NumberChars.cut {a b rest rest' : List Char} (ha : NumberChars a) (hb : NumberChars b)
    (hrest : Ends rest) (hrest' : Ends rest') (h : a ++ rest = b ++ rest') :
    a = b ∧ rest = rest' := by
  rcases List.append_eq_append_iff.mp h with ⟨t, rfl, htail⟩ | ⟨t, rfl, htail⟩
  · obtain rfl := hb.eq_nil hrest htail
    simpa using htail
  · obtain rfl := ha.eq_nil hrest' htail
    simpa using htail.symm

theorem numberChars_signed {cs : List Char} (hcs : NumberText cs) (hpointed : Pointed cs)
    (negative : Bool) : NumberChars (if negative then '-' :: cs else cs) := by
  have hno : ∀ d : Char, d.isDigit = false → (∀ c, numberGoesOn c d = false) → d ∉ cs := by
    obtain ⟨c, tail, rfl, hdigit, hruns⟩ := hcs
    intro d hd hgoes
    rw [List.mem_cons, not_or]
    refine ⟨?_, not_mem_of_runs hgoes hruns⟩
    rintro rfl
    rw [hd] at hdigit
    cases hdigit
  have hspace : ' ' ∉ cs := hno ' ' rfl fun c => by simp [numberGoesOn]
  have hparen : ')' ∉ cs := hno ')' rfl fun c => by simp [numberGoesOn]
  cases negative with
  | false => exact ⟨hpointed, hspace, hparen⟩
  | true =>
    exact ⟨⟨fun h => absurd h (by decide), hpointed⟩, by simpa using hspace, by simpa using hparen⟩

theorem point_not_mem {cs : List Char} (h : ∀ c ∈ cs, c.isDigit = true) : '.' ∉ cs :=
  fun hmem => absurd (h _ hmem) (by decide)

/-- One point between digits. -/
theorem pointed_point {front back : List Char} (hfront : ∀ c ∈ front, c.isDigit = true)
    (hback : ∀ c ∈ back, c.isDigit = true) (hne : back ≠ []) {rest : List Char} (hrest : '.' ∉ rest) :
    Pointed (front ++ '.' :: (back ++ rest)) := by
  obtain ⟨d, back, rfl⟩ := List.exists_cons_of_ne_nil hne
  refine pointed_append (point_not_mem hfront) ⟨fun _ => ⟨d, rfl, hback d List.mem_cons_self⟩, ?_⟩
  exact pointed_append (point_not_mem hback) (pointed_of_not_mem hrest)

theorem pointed_positional (d : Decimal) : Pointed (NumberStyle.listing.positionalText d) := by
  have hdigit : ∀ c ∈ Nat.toDigits 10 d.digits, c.isDigit = true := Numeral.isDigit_toDigits
  have hne : Nat.toDigits 10 d.digits ≠ [] := Nat.toDigits_ne_nil
  have hpoint : ∀ {front back : List Char}, (∀ c ∈ front, c.isDigit = true) →
      (∀ c ∈ back, c.isDigit = true) → back ≠ [] → Pointed (front ++ '.' :: back) := by
    intro front back hfront hback hne
    have hpointed := pointed_point hfront hback hne List.not_mem_nil
    rwa [List.append_nil] at hpointed
  unfold NumberStyle.positionalText
  by_cases he : 0 ≤ d.exponent
  · rw [if_pos he]
    refine hpoint ?_ (List.all_eq_true.mp (by decide)) (by decide)
    intro c hc
    exact (List.mem_append.mp hc).elim (hdigit c) (Numeral.isDigit_zeros c)
  · rw [if_neg he]
    have hall : ∀ n, ∀ c ∈ NumberStyle.zeros n ++ Nat.toDigits 10 d.digits, c.isDigit = true :=
      fun n c hc => (List.mem_append.mp hc).elim (Numeral.isDigit_zeros c) (hdigit c)
    have hlength : ∀ n, (NumberStyle.zeros n).length = n := fun n => List.length_replicate
    refine hpoint (fun c hc => hall _ c (List.mem_of_mem_take hc))
      (fun c hc => hall _ c (List.mem_of_mem_drop hc)) ?_
    refine List.ne_nil_of_length_pos ?_
    rw [List.length_drop, List.length_append, hlength]
    omega

theorem pointed_exponent (d : Decimal) : Pointed (NumberStyle.listing.exponentText d) := by
  have hdigit : ∀ c ∈ Nat.toDigits 10 d.digits, c.isDigit = true := Numeral.isDigit_toDigits
  have hpower : '.' ∉ 'e' :: ((if d.leading < 0 then ['-'] else []) ++
      Nat.toDigits 10 d.leading.natAbs) := by
    have hdigits := point_not_mem (Numeral.isDigit_toDigits (n := d.leading.natAbs))
    split <;> simp [hdigits]
  unfold NumberStyle.exponentText
  simp only [NumberStyle.listing, Bool.false_eq_true, if_false, List.append_assoc, List.cons_append]
    at hpower ⊢
  generalize Nat.toDigits 10 d.digits = ds at hdigit ⊢
  cases ds with
  | nil => exact pointed_of_not_mem hpower
  | cons c ds =>
    have hc : ∀ x ∈ [c], x.isDigit = true := by
      simpa using hdigit c List.mem_cons_self
    cases ds with
    | nil => exact pointed_append (point_not_mem hc) (pointed_of_not_mem hpower)
    | cons d ds =>
      exact pointed_point hc (fun x hx => hdigit x (List.mem_cons_of_mem _ hx))
        (List.cons_ne_nil _ _) hpower

theorem pointed_magnitude (x : Binary64) : Pointed (NumberStyle.listing.magnitudeText x) := by
  unfold NumberStyle.magnitudeText
  simp only
  split
  · exact pointed_positional _
  · exact pointed_exponent _

/-! ### Literals -/

section
variable {p : Program}

/-- Decimal numbers are finite. -/
def Expr.Finite : Expr → Prop
  | .integer _ | .string _ | .global _ => True
  | .decimal x => x.isFinite = true
  | .parse e | .format e => e.Finite
  | .concat l r | .sum l r | .equal l r => l.Finite ∧ r.Finite

/-- The sign of a number, and what is read behind it. -/
def Expr.literal? : Expr → Option (Bool × Target.Lexeme)
  | .integer v => some (decide (v.toInt < 0), .integer v.toInt.natAbs false)
  | .decimal x => some (x.isNegative, .real x.abs)
  | _ => none

theorem literal?_inj {e e' : Expr} {l : Bool × Target.Lexeme} (h : e.literal? = some l)
    (h' : e'.literal? = some l) : e = e' := by
  rw [← h'] at h
  cases e with
  | integer v =>
    cases e' with
    | integer v' =>
      obtain ⟨hsign, hvalue⟩ := Prod.mk.inj (Option.some.inj h)
      obtain ⟨hvalue, -⟩ := Target.Lexeme.integer.inj hvalue
      have hsign : v.toInt < 0 ↔ v'.toInt < 0 := by simpa using hsign
      rw [Int64.toInt_inj.mp (show v.toInt = v'.toInt by omega)]
    | _ => simp [Expr.literal?] at h
  | decimal x =>
    cases e' with
    | decimal x' =>
      obtain ⟨hsign, hvalue⟩ := Prod.mk.inj (Option.some.inj h)
      have habs := Target.Lexeme.real.inj hvalue
      cases hneg : x.isNegative with
      | true =>
        rw [← Target.neg_abs hneg, habs, Target.neg_abs (hsign ▸ hneg)]
      | false =>
        rw [← Target.abs_of_not_isNegative hneg, habs,
          Target.abs_of_not_isNegative (hsign ▸ hneg)]
    | _ => simp [Expr.literal?] at h
  | _ =>
    rw [h'] at h
    cases h

theorem text_literal {e : Expr} (he : e.Finite) {negative : Bool} {l : Target.Lexeme}
    (h : e.literal? = some (negative, l)) : ∃ cs, NumberText cs ∧ Pointed cs ∧ numberLexeme cs = l ∧
      (e.text p).toList = if negative then '-' :: cs else cs := by
  cases e with
  | integer v =>
    obtain ⟨rfl, rfl⟩ := Prod.mk.inj (Option.some.inj h)
    refine ⟨Nat.toDigits 10 v.toInt.natAbs, numberText_toDigits _,
      pointed_of_not_mem (point_not_mem Numeral.isDigit_toDigits), numberLexeme_toDigits _, ?_⟩
    rw [Expr.text, Target.toList_toString]
    simp
  | decimal x =>
    obtain ⟨rfl, rfl⟩ := Prod.mk.inj (Option.some.inj h)
    have hfinite : x.isFinite = true := he
    have hexponent : x.exponentField ≠ 2047 := by simpa [Binary64.isFinite] using hfinite
    refine ⟨_, numberText_magnitude x, pointed_magnitude x, numberLexeme_magnitude hfinite, ?_⟩
    simp [Expr.text, NumberStyle.text, NumberStyle.finiteText, Binary64.isNaN, Binary64.isInfinite,
      hexponent]
  | _ => cases h

/-! ### Forms of expressions -/

/-- Conversions are written like calls. -/
inductive Conversion where
  | parse
  | format
  deriving DecidableEq

def Conversion.word : Conversion → String
  | .parse => "int"
  | .format => "str"

def Conversion.expr : Conversion → Expr → Expr
  | .parse => .parse
  | .format => .format

/-- Operations on two operands are written with a sign between them. -/
inductive Joint where
  | concat
  | sum
  | equal
  deriving DecidableEq

def Joint.sign : Joint → String
  | .concat => "++"
  | .sum => "+"
  | .equal => "=="

def Joint.expr : Joint → Expr → Expr → Expr
  | .concat => .concat
  | .sum => .sum
  | .equal => .equal

theorem toList_conversion (c : Conversion) (e : Expr) : ((c.expr e).text p).toList =
    c.word.toList ++ '(' :: ((e.text p).toList ++ [')']) := by
  cases c <;> simp [Conversion.expr, Conversion.word, Expr.text]

theorem toList_joint (j : Joint) (l r : Expr) : ((j.expr l r).text p).toList =
    '(' :: ((l.text p).toList ++ ' ' :: (j.sign.toList ++ ' ' :: ((r.text p).toList ++ [')']))) := by
  cases j <;> simp [Joint.expr, Joint.sign, Expr.text]

/-- What the first character of an expression tells. -/
inductive Lead where
  | paren
  | quote
  | number
  | word
  /-- No expression starts so. -/
  | other

def leadOf (c : Char) : Lead :=
  if c = '(' then .paren
  else if c = '"' then .quote
  else if c = '-' ∨ c.isDigit = true then .number
  else if c = ' ' ∨ c = ':' then .other
  else .word

def Expr.lead : Expr → Lead
  | .integer _ | .decimal _ => .number
  | .string _ => .quote
  | .parse _ | .format _ | .global _ => .word
  | .concat .. | .sum .. | .equal .. => .paren

theorem exists_joint {e : Expr} (h : e.lead = .paren) :
    ∃ (j : Joint) (l r : Expr), e = j.expr l r := by
  cases e with
  | concat l r => exact ⟨.concat, l, r, rfl⟩
  | sum l r => exact ⟨.sum, l, r, rfl⟩
  | equal l r => exact ⟨.equal, l, r, rfl⟩
  | _ => cases h

theorem exists_string {e : Expr} (h : e.lead = .quote) : ∃ s, e = .string s := by
  cases e with
  | string s => exact ⟨s, rfl⟩
  | _ => cases h

theorem exists_literal {e : Expr} (h : e.lead = .number) :
    ∃ negative l, e.literal? = some (negative, l) := by
  cases e with
  | integer v => exact ⟨_, _, rfl⟩
  | decimal x => exact ⟨_, _, rfl⟩
  | _ => cases h

theorem exists_word {e : Expr} (h : e.lead = .word) :
    (∃ (c : Conversion) (inner : Expr), e = c.expr inner) ∨ ∃ id, e = .global id := by
  cases e with
  | parse inner => exact .inl ⟨.parse, inner, rfl⟩
  | format inner => exact .inl ⟨.format, inner, rfl⟩
  | global id => exact .inr ⟨id, rfl⟩
  | _ => cases h

theorem leadOf_identifier {A : Alphabet} {n : String} (hn : A.Identifier n) :
    ∃ c tail, n.toList = c :: tail ∧ leadOf c = .word := by
  obtain ⟨c, hc, hstart⟩ := hn.start
  obtain ⟨tail, htail⟩ := List.head?_eq_some_iff.mp hc
  have hne : ∀ d, Mark d → c ≠ d := by
    rintro d hd rfl
    exact hn.not_mem hd (List.mem_of_mem_head? hc)
  have hdigit : ¬ c.isDigit = true := by
    intro hdigit
    have hrange : 48 ≤ c.toNat ∧ c.toNat ≤ 57 := Char.isDigit_iff_toNat.mp hdigit
    have hall : ∀ k < 58, 48 ≤ k → (Char.ofNat k).isAlpha = false ∧ Char.ofNat k ≠ '_' := by decide
    have hno := hall c.toNat (by omega) hrange.1
    rw [Char.ofNat_toNat] at hno
    rcases hstart with hletter | hunderscore
    · rw [A.ascii_letter c (by omega), hno.1] at hletter
      cases hletter
    · exact hno.2 hunderscore
  refine ⟨c, tail, htail, ?_⟩
  rw [leadOf, if_neg (hne '(' (by decide)), if_neg (hne '"' (by decide)),
    if_neg (not_or.mpr ⟨hne '-' (by decide), hdigit⟩),
    if_neg (not_or.mpr ⟨hne ' ' (by decide), hne ':' (by decide)⟩)]

theorem leadOf_reference {A : Alphabet} {names : List String} (hnames : Named A names)
    (kind : String) (i : Nat) :
    ∃ c tail, (referenceText kind names i).toList = c :: tail ∧ leadOf c = .word := by
  rcases referenceText_cases hnames kind i with ⟨n, -, hn, htext⟩ | htext
  · rw [htext]
    exact leadOf_identifier hn
  · exact ⟨'<', _, htext, rfl⟩

theorem leadOf_number {cs : List Char} (h : NumberText cs) (negative : Bool) :
    ∃ c tail, (if negative then '-' :: cs else cs) = c :: tail ∧ leadOf c = .number := by
  obtain ⟨d, tail, rfl, hdigit, -⟩ := h
  cases negative with
  | true => exact ⟨'-', _, rfl, rfl⟩
  | false =>
    have hne : ∀ c : Char, c.isDigit = false → d ≠ c := by
      rintro c hc rfl
      rw [hc] at hdigit
      cases hdigit
    refine ⟨d, tail, rfl, ?_⟩
    rw [leadOf, if_neg (hne '(' rfl), if_neg (hne '"' rfl), if_pos (.inr hdigit)]

section
variable {A : Alphabet} (hp : Named A (p.globals.map (·.name)))
include hp

/-- The first character of the text. -/
theorem lead_text {e : Expr} (he : e.Finite) :
    ∃ c tail, (e.text p).toList = c :: tail ∧ leadOf c = e.lead := by
  have hnumber : ∀ {negative l}, e.literal? = some (negative, l) →
      ∃ c tail, (e.text p).toList = c :: tail ∧ leadOf c = .number := by
    intro negative l hl
    obtain ⟨cs, hcs, -, -, htext⟩ := text_literal (p := p) he hl
    rw [htext]
    exact leadOf_number hcs negative
  have hjoint : ∀ (j : Joint) (l r : Expr), ∃ c tail,
      ((j.expr l r).text p).toList = c :: tail ∧ leadOf c = .paren :=
    fun j l r => ⟨_, _, toList_joint j l r, rfl⟩
  cases e with
  | integer v => exact hnumber rfl
  | decimal x => exact hnumber rfl
  | string s => exact ⟨'"', escapeChars s.toList ++ ['"'], by simp [Expr.text, quote, escape], rfl⟩
  | parse e => exact ⟨'i', _, toList_conversion .parse e, rfl⟩
  | format e => exact ⟨'s', _, toList_conversion .format e, rfl⟩
  | global id =>
    rw [Expr.text, globalText_eq]
    exact leadOf_reference hp "global" id.index
  | concat l r => exact hjoint .concat l r
  | sum l r => exact hjoint .sum l r
  | equal l r => exact hjoint .equal l r

/-! ### Expressions with the same text -/

theorem lead_eq {e e' : Expr} (he : e.Finite) (he' : e'.Finite) {rest rest' : List Char}
    (h : (e.text p).toList ++ rest = (e'.text p).toList ++ rest') : e'.lead = e.lead := by
  obtain ⟨c, tail, htext, hlead⟩ := lead_text hp he
  obtain ⟨c', tail', htext', hlead'⟩ := lead_text hp he'
  rw [htext, htext'] at h
  rw [← hlead, ← hlead', (List.cons.inj h).1]

/-- The text of the expression determines it and where it ends. -/
def Expr.Decodes (p : Program) (e : Expr) : Prop := ∀ (e' : Expr) (rest rest' : List Char),
  e'.Finite → Ends rest → Ends rest' →
    (e.text p).toList ++ rest = (e'.text p).toList ++ rest' → e = e' ∧ rest = rest'

theorem decodes_literal {e : Expr} (he : e.Finite) (hlead : e.lead = .number) : e.Decodes p := by
  intro e' rest rest' he' hrest hrest' h
  obtain ⟨negative, l, hl⟩ := exists_literal hlead
  obtain ⟨negative', l', hl'⟩ := exists_literal ((lead_eq hp he he' h).trans hlead)
  obtain ⟨cs, hcs, hpointed, hvalue, htext⟩ := text_literal (p := p) he hl
  obtain ⟨cs', hcs', hpointed', hvalue', htext'⟩ := text_literal (p := p) he' hl'
  rw [htext, htext'] at h
  obtain ⟨hchars, hend⟩ := (numberChars_signed hcs hpointed negative).cut
    (numberChars_signed hcs' hpointed' negative') hrest hrest' h
  refine ⟨?_, hend⟩
  have hminus : ∀ {cs : List Char}, NumberText cs → ∀ tail, cs ≠ '-' :: tail := by
    rintro cs ⟨c, tail, rfl, hdigit, -⟩ tail' heq
    rw [(List.cons.inj heq).1] at hdigit
    cases hdigit
  have hboth : negative = negative' ∧ cs = cs' := by
    cases negative <;> cases negative'
    · exact ⟨rfl, hchars⟩
    · exact absurd hchars (hminus hcs _)
    · exact absurd hchars.symm (hminus hcs' _)
    · exact ⟨rfl, (List.cons.inj hchars).2⟩
  rw [hboth.1, ← hvalue, hboth.2, hvalue'] at hl
  exact literal?_inj hl hl'

theorem decodes_string (s : String) : (Expr.string s).Decodes p := by
  intro e' rest rest' he' _ _ h
  have hfinite : (Expr.string s).Finite := trivial
  obtain ⟨s', rfl⟩ := exists_string (lead_eq hp hfinite he' h)
  obtain ⟨rfl, hend⟩ := quote_append_inj h
  exact ⟨rfl, hend⟩

theorem decodes_joint (j : Joint) {l r : Expr} (hfinite : (j.expr l r).Finite) (hl : l.Decodes p)
    (hr : r.Decodes p) : (j.expr l r).Decodes p := by
  intro e' rest rest' he' _ _ h
  have hlead : (j.expr l r).lead = .paren := by cases j <;> rfl
  obtain ⟨j', l', r', rfl⟩ := exists_joint ((lead_eq hp hfinite he' h).trans hlead)
  have hparts : l'.Finite ∧ r'.Finite := by cases j' <;> exact he'
  have hspace : ∀ j : Joint, ' ' ∉ j.sign.toList := by intro j; cases j <;> decide
  have hsign : ∀ j j' : Joint, j.sign.toList = j'.sign.toList → j = j' := by
    intro j j'
    cases j <;> cases j' <;> decide
  rw [toList_joint, toList_joint] at h
  simp only [List.cons_append, List.append_assoc, List.nil_append] at h
  obtain ⟨rfl, hafter⟩ := hl l' _ _ hparts.1 (ends_space _) (ends_space _) (List.cons.inj h).2
  obtain ⟨hjoint, hright⟩ := cut_at (hspace j) (hspace j') (List.cons.inj hafter).2
  obtain rfl := hsign j j' hjoint
  obtain ⟨rfl, hend⟩ := hr r' _ _ hparts.2 (ends_paren _) (ends_paren _) hright
  exact ⟨rfl, (List.cons.inj hend).2⟩

omit hp in
theorem part_conversion (c : Conversion) : ∀ d ∈ c.word.toList, A.part d = true := by
  have hletters : (c.word.toList.all fun d => d.isAlpha && decide (d.toNat < 128)) = true := by
    cases c <;> decide
  intro d hd
  have hletter := List.all_eq_true.mp hletters d hd
  rw [Bool.and_eq_true, decide_eq_true_eq] at hletter
  rw [Alphabet.part, A.ascii_letter d hletter.2, hletter.1]
  rfl

/-- A name in front of a parenthesis is no reference. -/
theorem conversion_ne_global (c : Conversion) (e : Expr) (id : GlobalId) {rest rest' : List Char}
    (hrest' : Ends rest') :
    ((c.expr e).text p).toList ++ rest ≠ ((Expr.global id).text p).toList ++ rest' := by
  have hparen : ∀ rest, Stops A ('(' :: rest) := stops_mark (by decide)
  intro h
  rw [toList_conversion, Expr.text, globalText_eq, List.append_assoc, List.cons_append] at h
  rcases referenceText_cases hp "global" id.index with ⟨n, -, hn, htext⟩ | htext
  · rw [htext] at h
    have hafter := (cut_inj (part_conversion c) hn.part (hparen _) hrest'.stops h).2
    rw [← hafter] at hrest'
    rcases hrest' with heq | ⟨tail, heq | heq | heq⟩ <;> cases heq
  · rw [htext] at h
    cases c <;> exact absurd (List.cons.inj h).1 (by decide)

theorem decodes_conversion (c : Conversion) {e : Expr} (hfinite : (c.expr e).Finite)
    (he : e.Decodes p) : (c.expr e).Decodes p := by
  intro e' rest rest' he' _ hrest' h
  have hlead : (c.expr e).lead = .word := by cases c <;> rfl
  have hparen : ∀ rest, Stops A ('(' :: rest) := stops_mark (by decide)
  rcases exists_word ((lead_eq hp hfinite he' h).trans hlead) with ⟨c', inner, rfl⟩ | ⟨id, rfl⟩
  · have hinner : inner.Finite := by cases c' <;> exact he'
    have hword : ∀ c c' : Conversion, c.word.toList = c'.word.toList → c = c' := by
      intro c c'
      cases c <;> cases c' <;> decide
    rw [toList_conversion, toList_conversion] at h
    simp only [List.append_assoc, List.cons_append, List.nil_append] at h
    obtain ⟨hwords, hafter⟩ := cut_inj (part_conversion c) (part_conversion c') (hparen _)
      (hparen _) h
    obtain rfl := hword c c' hwords
    obtain ⟨rfl, hend⟩ := he inner _ _ hinner (ends_paren _) (ends_paren _) (List.cons.inj hafter).2
    exact ⟨rfl, (List.cons.inj hend).2⟩
  · exact absurd h (conversion_ne_global hp c e id hrest')

theorem globalText_append_inj {id id' : GlobalId} {rest rest' : List Char} (hrest : Stops A rest)
    (hrest' : Stops A rest')
    (h : (p.globalText id).toList ++ rest = (p.globalText id').toList ++ rest') :
    id = id' ∧ rest = rest' := by
  rw [globalText_eq, globalText_eq] at h
  obtain ⟨hindex, hend⟩ := referenceText_append_inj hp hrest hrest' h
  exact ⟨congrArg GlobalId.mk hindex, hend⟩

theorem decodes_global (id : GlobalId) : (Expr.global id).Decodes p := by
  intro e' rest rest' he' hrest hrest' h
  have hfinite : (Expr.global id).Finite := trivial
  rcases exists_word (lead_eq hp hfinite he' h) with ⟨c, inner, rfl⟩ | ⟨id', rfl⟩
  · exact absurd h.symm (conversion_ne_global hp c inner id hrest)
  · obtain ⟨rfl, hend⟩ := globalText_append_inj hp hrest.stops hrest'.stops h
    exact ⟨rfl, hend⟩

theorem exprDecodes {e : Expr} (he : e.Finite) : e.Decodes p := by
  induction e with
  | integer v => exact decodes_literal hp he rfl
  | decimal x => exact decodes_literal hp he rfl
  | string s => exact decodes_string hp s
  | parse e ih => exact decodes_conversion hp .parse he (ih he)
  | global id => exact decodes_global hp id
  | concat l r ihl ihr => exact decodes_joint hp .concat he (ihl he.1) (ihr he.2)
  | sum l r ihl ihr => exact decodes_joint hp .sum he (ihl he.1) (ihr he.2)
  | format e ih => exact decodes_conversion hp .format he (ih he)
  | equal l r ihl ihr => exact decodes_joint hp .equal he (ihl he.1) (ihr he.2)

theorem eq_of_text {e e' : Expr} (he : e.Finite) (he' : e'.Finite) (h : e.text p = e'.text p) :
    e = e' := by
  have hends : Ends [] := .inl rfl
  exact (exprDecodes hp he e' [] [] he' hends hends (by rw [h])).1

/-! ### Texts on one line -/

omit hp in
theorem not_mem_reference {names : List String} (hnames : Named A names) {kind : String} {c : Char}
    (hc : Mark c) (hkind : c ∉ '<' :: (kind.toList ++ ['#', '>'])) (i : Nat) :
    c ∉ (referenceText kind names i).toList := by
  rcases referenceText_cases hnames kind i with ⟨n, -, hn, htext⟩ | htext
  · rw [htext]
    exact hn.not_mem hc
  · have hdigits : c ∉ Nat.toDigits 10 i := by
      intro hmem
      have hdigit : c.isDigit = true := Numeral.isDigit_toDigits _ hmem
      have hno := hc.2
      rw [Char.isAlphanum, hdigit, Bool.or_true] at hno
      cases hno
    rw [htext]
    simp_all

theorem newline_not_mem_text {e : Expr} (he : e.Finite) : '\n' ∉ (e.text p).toList := by
  have hnumber : ∀ {e : Expr} {negative l}, e.Finite → e.literal? = some (negative, l) →
      '\n' ∉ (e.text p).toList := by
    intro e negative l he hl
    obtain ⟨cs, hcs, -, -, htext⟩ := text_literal (p := p) he hl
    have hline := (Target.inline_number hcs (negative = true)).line
    rw [htext]
    exact hline
  induction e with
  | integer v => exact hnumber he rfl
  | decimal x => exact hnumber he rfl
  | string s => exact (Target.inline_quote s).line
  | parse e ih => simp [Expr.text, ih he]
  | global id =>
    rw [Expr.text, globalText_eq]
    exact not_mem_reference hp (by decide) (by decide) id.index
  | concat l r ihl ihr => simp [Expr.text, ihl he.1, ihr he.2]
  | sum l r ihl ihr => simp [Expr.text, ihl he.1, ihr he.2]
  | format e ih => simp [Expr.text, ih he]
  | equal l r ihl ihr => simp [Expr.text, ihl he.1, ihr he.2]

end

end

end RpgLowering.Core
