import RpgLowering.Proofs.Lexemes

/-! String literals as Java reads them. The text of a source is turned into UTF-16 units first, and a
backslash and `u` spell a unit there by its code; then a literal is read from the units up to its
closing quote. A quoted string is one literal, whatever stands behind it, and denotes the string. -/
namespace RpgLowering.Text

/-! ### Units -/

/-- The UTF-16 units of a character. -/
def utf16 (c : Char) : List Nat :=
  if c.toNat < 0x10000 then [c.toNat]
  else [0xd800 + (c.toNat - 0x10000) / 0x400, 0xdc00 + (c.toNat - 0x10000) % 0x400]

theorem utf16_of_lt {c : Char} (h : c.toNat < 0x10000) : utf16 c = [c.toNat] := if_pos h

/-- A character outside the first plane is a pair of units that stand for no character alone. -/
theorem utf16_cases (c : Char) :
    (utf16 c = [c.toNat] ∧ (c.toNat < 0xd800 ∨ 0xdfff < c.toNat)) ∨
      ∃ high low, utf16 c = [high, low] ∧ 0xd800 ≤ high ∧ high ≤ 0xdbff ∧ 0xdc00 ≤ low ∧
        low ≤ 0xdfff ∧ c.toNat = 0x10000 + 0x400 * (high - 0xd800) + (low - 0xdc00) := by
  have hvalid : c.toNat < 0xd800 ∨ 0xdfff < c.toNat ∧ c.toNat < 0x110000 := c.valid
  unfold utf16
  split
  · exact .inl ⟨rfl, by omega⟩
  · exact .inr ⟨_, _, rfl, by omega⟩

/-- The units of a character determine it, and where they end. -/
theorem utf16_append_inj {c d : Char} {rest rest' : List Nat}
    (h : utf16 c ++ rest = utf16 d ++ rest') : c = d ∧ rest = rest' := by
  rw [← Char.toNat_inj]
  rcases utf16_cases c with ⟨hc, hrange⟩ | ⟨high, low, hc, hpair⟩ <;>
    rcases utf16_cases d with ⟨hd, hrange'⟩ | ⟨high', low', hd, hpair'⟩ <;>
    simp only [hc, hd, List.cons_append, List.nil_append, List.cons.injEq] at h
  · exact h
  · omega
  · omega
  · exact ⟨by omega, h.2.2⟩

theorem flatMap_utf16_inj {cs ds : List Char} (h : cs.flatMap utf16 = ds.flatMap utf16) :
    cs = ds := by
  have hne : ∀ c : Char, utf16 c ≠ [] := by
    intro c
    rcases utf16_cases c with ⟨hc, -⟩ | ⟨high, low, hc, -⟩ <;> simp [hc]
  induction cs generalizing ds with
  | nil =>
    cases ds with
    | nil => rfl
    | cons d ds => simp [hne] at h
  | cons c cs ih =>
    cases ds with
    | nil => simp [hne] at h
    | cons d ds =>
      rw [List.flatMap_cons, List.flatMap_cons] at h
      obtain ⟨rfl, htail⟩ := utf16_append_inj h
      rw [ih htail]

/-! ### Codes in a source -/

/-- Where the translation of a source stands. -/
inductive Spelling where
  | plain
  /-- Behind a backslash with an even number of backslashes in front of it. -/
  | backslash
  /-- Behind such a backslash and `u`, with how many digits are missing. -/
  | code (missing value : Nat)

/-- The units of a source; there is none where digits of a code are missing. More than one `u` may
stand in front of the digits. -/
def unitsFrom : Spelling → List Char → List (Option Nat)
  | .plain, [] => []
  | .backslash, [] => [some '\\'.toNat]
  | .code .., [] => [none]
  | .plain, c :: cs =>
    if c = '\\' then unitsFrom .backslash cs else (utf16 c).map some ++ unitsFrom .plain cs
  | .backslash, c :: cs =>
    if c = 'u' then unitsFrom (.code 4 0) cs
    else some '\\'.toNat :: ((utf16 c).map some ++ unitsFrom .plain cs)
  | .code missing value, c :: cs =>
    if c = 'u' ∧ missing = 4 then unitsFrom (.code 4 0) cs
    else match hexValue? c with
      | none => [none]
      | some d =>
        if missing ≤ 1 then some (16 * value + d) :: unitsFrom .plain cs
        else unitsFrom (.code (missing - 1) (16 * value + d)) cs

def inputUnits (source : List Char) : List (Option Nat) := unitsFrom .plain source

/-! ### Literals -/

/-- Where the reader of a literal stands. -/
inductive Inside where
  | text
  | escape
  /-- In an octal escape, with how many digits may still follow. -/
  | octal (value left : Nat)

/-- What a unit does to a literal, with the units that the literal denotes so far. -/
inductive Effect where
  | more (units : List Nat) (inside : Inside)
  | closed (units : List Nat)
  | bad

def Effect.behind (value : Nat) : Effect → Effect
  | .more units inside => .more (value :: units) inside
  | .closed units => .closed (value :: units)
  | .bad => .bad

def octalValue? (unit : Nat) : Option Nat :=
  if '0'.toNat ≤ unit ∧ unit ≤ '7'.toNat then some (unit - '0'.toNat) else none

def textEffect (unit : Nat) : Effect :=
  if unit = '"'.toNat then .closed []
  else if unit = '\\'.toNat then .more [] .escape
  else if unit = '\n'.toNat ∨ unit = '\r'.toNat then .bad
  else .more [unit] .text

/-- Three octal digits are read only if the first one is at most `3`. -/
def effect : Inside → Nat → Effect
  | .text, unit => textEffect unit
  | .escape, unit =>
    match octalValue? unit with
    | some d => .more [] (.octal d (if d ≤ 3 then 2 else 1))
    | none =>
      match Target.escaped? (Char.ofNat unit) with
      | some c => .more [c.toNat] .text
      | none => .bad
  | .octal value 0, unit => (textEffect unit).behind value
  | .octal value (left + 1), unit =>
    match octalValue? unit with
    | some d => .more [] (.octal (8 * value + d) left)
    | none => (textEffect unit).behind value

/-- What a literal denotes, and the units behind its closing quote. -/
def literalFrom? (inside : Inside) : List (Option Nat) → Option (List Nat × List (Option Nat))
  | [] | none :: _ => none
  | some unit :: rest =>
    match effect inside unit with
    | .more units next => (literalFrom? next rest).map fun (value, rest) => (units ++ value, rest)
    | .closed units => some (units, rest)
    | .bad => none

/-- The string literal at the front of the units. Text blocks are not read. -/
def stringLiteral? : List (Option Nat) → Option (List Nat × List (Option Nat))
  | some unit :: rest => if unit = '"'.toNat then literalFrom? .text rest else none
  | _ => none

/-! ### Escaped characters -/

/-- The characters that have a letter of their own. -/
def lettered : List (Char × Char) :=
  [('"', '"'), ('\\', '\\'), ('\n', 'n'), ('\r', 'r'), ('\t', 't')]

/-- The three ways in which a character is written. -/
theorem escapeChar_cases (c : Char) :
    (∃ d, (c, d) ∈ lettered ∧ escapeChar c = ['\\', d]) ∨
    (isControl c = true ∧ escapeChar c = '\\' :: octal c.toNat) ∨
    (c ≠ '"' ∧ c ≠ '\\' ∧ isControl c = false ∧ escapeChar c = [c]) := by
  unfold escapeChar
  split
  case h_6 hquote hback _ _ _ =>
    cases hcontrol : isControl c with
    | true => exact .inr (.inl ⟨rfl, rfl⟩)
    | false => exact .inr (.inr ⟨hquote, hback, rfl, rfl⟩)
  all_goals exact .inl ⟨_, by simp [lettered], rfl⟩

theorem lt_of_isControl {c : Char} (h : isControl c = true) : c.toNat < 160 := by
  simp only [isControl, Bool.or_eq_true, Bool.and_eq_true, decide_eq_true_eq] at h
  omega

theorem toNat_octalDigit (n : Nat) : (octalDigit n).toNat = '0'.toNat + n % 8 := by
  have hall : ∀ m < 8, (Char.ofNat ('0'.toNat + m)).toNat = '0'.toNat + m := by decide
  exact hall (n % 8) (Nat.mod_lt _ (by decide))

theorem octalDigit_ne (n : Nat) {c : Char} (hc : c.toNat < 48 ∨ 55 < c.toNat) :
    octalDigit n ≠ c := by
  intro heq
  have hdigit := toNat_octalDigit n
  have hzero : '0'.toNat = 48 := rfl
  rw [heq] at hdigit
  omega

theorem utf16_octalDigit (n : Nat) : utf16 (octalDigit n) = ['0'.toNat + n % 8] := by
  have hzero : '0'.toNat = 48 := rfl
  have hdigit := toNat_octalDigit n
  rw [utf16_of_lt (by omega), hdigit]

/-- No code is spelled in front of, inside or across an escaped character. -/
theorem unitsFrom_escapeChar (c : Char) (rest : List Char) :
    unitsFrom .plain (escapeChar c ++ rest) =
      ((escapeChar c).flatMap utf16).map some ++ unitsFrom .plain rest := by
  rcases escapeChar_cases c with ⟨d, hd, hc⟩ | ⟨-, hc⟩ | ⟨-, hback, -, hc⟩
  · have hall : ∀ p ∈ lettered, p.2 ≠ 'u' := by decide
    have hu : d ≠ 'u' := hall _ hd
    simp [hc, unitsFrom, hu, utf16]
  · have hdigit : ∀ n, octalDigit n ≠ 'u' ∧ octalDigit n ≠ '\\' :=
      fun n => ⟨octalDigit_ne n (by decide), octalDigit_ne n (by decide)⟩
    simp [hc, octal, unitsFrom, hdigit, utf16_of_lt (c := '\\') (by decide)]
  · simp [hc, unitsFrom, hback]

theorem octalValue?_digit (n : Nat) : octalValue? ('0'.toNat + n % 8) = some (n % 8) := by
  have hlast : '0'.toNat + n % 8 ≤ '7'.toNat := by
    have hzero : '0'.toNat = 48 := rfl
    have hseven : '7'.toNat = 55 := rfl
    omega
  rw [octalValue?, if_pos ⟨Nat.le_add_right _ _, hlast⟩, Nat.add_sub_cancel_left]

/-- After its last digit an octal escape is a unit like any other. -/
theorem literalFrom?_octal (value : Nat) (rest : List (Option Nat)) :
    literalFrom? (.octal value 0) rest =
      (literalFrom? .text rest).map fun (units, rest) => (value :: units, rest) := by
  match rest with
  | [] | none :: _ => rfl
  | some unit :: rest =>
    simp only [literalFrom?, effect]
    cases textEffect unit with
    | more units next => simp [Effect.behind, Function.comp_def]
    | closed units => rfl
    | bad => rfl

theorem textEffect_of_ne {unit : Nat}
    (h : unit ≠ '"'.toNat ∧ unit ≠ '\\'.toNat ∧ unit ≠ '\n'.toNat ∧ unit ≠ '\r'.toNat) :
    textEffect unit = .more [unit] .text := by
  rw [textEffect, if_neg h.1, if_neg h.2.1, if_neg (not_or.mpr h.2.2)]

/-- The units of a character that is written as itself stand for themselves. -/
theorem literalFrom?_plain {c : Char} (hquote : c ≠ '"') (hback : c ≠ '\\')
    (hcontrol : isControl c = false) (rest : List (Option Nat)) :
    literalFrom? .text ((utf16 c).map some ++ rest) =
      (literalFrom? .text rest).map fun (units, rest) => (utf16 c ++ units, rest) := by
  have hne : ∀ d : Char, c ≠ d → c.toNat ≠ d.toNat := fun d h heq => h (Char.toNat_inj.mp heq)
  have hline : c ≠ '\n' ∧ c ≠ '\r' := by
    constructor <;> intro heq <;> rw [heq] at hcontrol <;> exact absurd hcontrol (by decide)
  rcases utf16_cases c with ⟨hc, -⟩ | ⟨high, low, hc, hhigh, -, hlow, -⟩
  · have hunit := textEffect_of_ne
      ⟨hne _ hquote, hne _ hback, hne _ hline.1, hne _ hline.2⟩
    simp [hc, literalFrom?, effect, hunit]
  · -- both units of a pair lie far above the marks of a literal
    have hpair : ∀ unit ≥ 0xd800, textEffect unit = .more [unit] .text := by
      intro unit hunit
      have hmarks : '"'.toNat < 128 ∧ '\\'.toNat < 128 ∧ '\n'.toNat < 128 ∧ '\r'.toNat < 128 := by
        decide
      exact textEffect_of_ne (by omega)
    simp [hc, literalFrom?, effect, hpair high hhigh, hpair low (by omega), Function.comp_def]

theorem literalFrom?_escapeChar (c : Char) (rest : List (Option Nat)) :
    literalFrom? .text (((escapeChar c).flatMap utf16).map some ++ rest) =
      (literalFrom? .text rest).map fun (units, rest) => (utf16 c ++ units, rest) := by
  have hescape : ∀ rest, literalFrom? .text (some '\\'.toNat :: rest) = literalFrom? .escape rest := by
    intro rest
    simp [literalFrom?, effect, textEffect]
  rcases escapeChar_cases c with ⟨d, hd, hc⟩ | ⟨hcontrol, hc⟩ | ⟨hquote, hback, hcontrol, hc⟩
  · have hall : ∀ p ∈ lettered, utf16 p.1 = [p.1.toNat] ∧ utf16 p.2 = [p.2.toNat] ∧
        effect .escape p.2.toNat = .more [p.1.toNat] .text := by
      simp only [lettered, List.forall_mem_cons, List.not_mem_nil, false_imp_iff, implies_true,
        and_true]
      exact ⟨⟨rfl, rfl, rfl⟩, ⟨rfl, rfl, rfl⟩, ⟨rfl, rfl, rfl⟩, ⟨rfl, rfl, rfl⟩, rfl, rfl, rfl⟩
    obtain ⟨hunit, hletter, heffect⟩ := hall _ hd
    have hunits : ((escapeChar c).flatMap utf16).map some = [some '\\'.toNat, some d.toNat] := by
      simp [hc, hletter, utf16_of_lt (c := '\\') (by decide)]
    rw [hunits, List.cons_append, hescape, List.cons_append, literalFrom?, heffect, hunit]
    rfl
  · have hn := lt_of_isControl hcontrol
    have hvalue : 8 * (8 * (c.toNat / 64 % 8) + c.toNat / 8 % 8) + c.toNat % 8 = c.toNat := by omega
    have hfirst : c.toNat / 64 % 8 ≤ 3 := by omega
    have hunits : ((escapeChar c).flatMap utf16).map some = some '\\'.toNat ::
        [c.toNat / 64, c.toNat / 8, c.toNat].map fun n => some ('0'.toNat + n % 8) := by
      simp [hc, octal, utf16_octalDigit, utf16_of_lt (c := '\\') (by decide)]
    have hdigits : literalFrom? .escape
          (([c.toNat / 64, c.toNat / 8, c.toNat].map fun n => some ('0'.toNat + n % 8)) ++ rest) =
        literalFrom? (.octal c.toNat 0) rest := by
      simp only [List.map_cons, List.map_nil, List.cons_append, List.nil_append, literalFrom?, effect,
        octalValue?_digit, if_pos hfirst, hvalue, Option.map_id']
    rw [hunits, List.cons_append, hescape, hdigits, literalFrom?_octal, utf16_of_lt (by omega)]
    rfl
  · have hself : (escapeChar c).flatMap utf16 = utf16 c := by simp [hc]
    rw [hself, literalFrom?_plain hquote hback hcontrol]

/-! ### Quoted strings -/

theorem inputUnits_escapeChars (s rest : List Char) :
    inputUnits (escapeChars s ++ rest) =
      ((escapeChars s).flatMap utf16).map some ++ inputUnits rest := by
  induction s with
  | nil => rfl
  | cons c s ih =>
    have hcons : escapeChars (c :: s) = escapeChar c ++ escapeChars s := List.flatMap_cons
    have hfirst := unitsFrom_escapeChar c (escapeChars s ++ rest)
    rw [inputUnits] at ih ⊢
    rw [hcons, List.append_assoc, hfirst, ih]
    simp

theorem literalFrom?_escapeChars (s : List Char) (rest : List (Option Nat)) :
    literalFrom? .text (((escapeChars s).flatMap utf16).map some ++ some '"'.toNat :: rest) =
      some (s.flatMap utf16, rest) := by
  induction s with
  | nil => rfl
  | cons c s ih =>
    have hcons : escapeChars (c :: s) = escapeChar c ++ escapeChars s := List.flatMap_cons
    rw [hcons, List.flatMap_append, List.map_append, List.append_assoc, literalFrom?_escapeChar, ih]
    rfl

/-- A quoted string is one literal for the string, whatever follows its closing quote. -/
theorem stringLiteral?_quote (s : String) (rest : List Char) :
    stringLiteral? (inputUnits ((quote s).toList ++ rest)) =
      some (s.toList.flatMap utf16, inputUnits rest) := by
  have hquote : ∀ cs, inputUnits ('"' :: cs) = some '"'.toNat :: inputUnits cs := fun _ => rfl
  have htext : (quote s).toList ++ rest = '"' :: (escapeChars s.toList ++ '"' :: rest) := by
    simp [quote, escape]
  rw [htext, hquote, inputUnits_escapeChars, hquote, stringLiteral?, if_pos rfl,
    literalFrom?_escapeChars]

/-- A quoted string can be told from everything behind it. -/
theorem quote_append_inj {s t : String} {rest rest' : List Char}
    (h : (quote s).toList ++ rest = (quote t).toList ++ rest') : s = t ∧ rest = rest' := by
  have hread := stringLiteral?_quote s rest
  rw [h, stringLiteral?_quote t rest'] at hread
  obtain ⟨hunits, -⟩ := Prod.mk.inj (Option.some.inj hread)
  obtain rfl := String.toList_inj.mp (flatMap_utf16_inj hunits)
  exact ⟨rfl, List.append_cancel_left h⟩

theorem escape_injective {s t : String} (h : escape s = escape t) : s = t := by
  have hquote : (quote s).toList ++ [] = (quote t).toList ++ [] := by rw [quote, quote, h]
  exact (quote_append_inj hquote).1

/-- Whether there is a quote that no backslash escapes. -/
def hasRawQuote : List Char → Bool
  | [] => false
  | '\\' :: _ :: cs => hasRawQuote cs
  | c :: cs => c == '"' || hasRawQuote cs

theorem hasRawQuote_cons {c : Char} (hquote : c ≠ '"') (hback : c ≠ '\\') (cs : List Char) :
    hasRawQuote (c :: cs) = hasRawQuote cs := by
  rw [hasRawQuote.eq_3, beq_eq_false_iff_ne.mpr hquote, Bool.false_or]
  intro d tail heq
  exact absurd heq hback

theorem hasRawQuote_escapeChar (c : Char) (rest : List Char) :
    hasRawQuote (escapeChar c ++ rest) = hasRawQuote rest := by
  rcases escapeChar_cases c with ⟨d, -, hc⟩ | ⟨-, hc⟩ | ⟨hquote, hback, -, hc⟩
  · rw [hc]
    rfl
  · have hdigit : ∀ n cs, hasRawQuote (octalDigit n :: cs) = hasRawQuote cs := fun n cs =>
      hasRawQuote_cons (octalDigit_ne n (by decide)) (octalDigit_ne n (by decide)) cs
    simp [hc, octal, hasRawQuote, hdigit]
  · rw [hc, List.singleton_append, hasRawQuote_cons hquote hback]

theorem hasRawQuote_escapeChars (s : List Char) : hasRawQuote (escapeChars s) = false := by
  induction s with
  | nil => rfl
  | cons c s ih =>
    have hcons : escapeChars (c :: s) = escapeChar c ++ escapeChars s := List.flatMap_cons
    rw [hcons, hasRawQuote_escapeChar, ih]

theorem isControl_escapeChars {s : List Char} : ∀ c ∈ escapeChars s, isControl c = false := by
  intro c hc
  obtain ⟨d, -, hd⟩ := List.mem_flatMap.mp hc
  rcases escapeChar_cases d with ⟨letter, hletter, hform⟩ | ⟨-, hform⟩ | ⟨-, -, hcontrol, hform⟩
  · have hall : ∀ p ∈ lettered, isControl '\\' = false ∧ isControl p.2 = false := by decide
    rw [hform] at hd
    rcases List.mem_cons.mp hd with rfl | hd
    · exact (hall _ hletter).1
    · rw [List.mem_singleton.mp hd]
      exact (hall _ hletter).2
  · have hoctal : ∀ n, isControl (octalDigit n) = false := by
      intro n
      have hall : ∀ m < 8, isControl (Char.ofNat ('0'.toNat + m)) = false := by decide
      exact hall (n % 8) (Nat.mod_lt _ (by decide))
    rw [hform, octal] at hd
    simp only [List.mem_cons, List.not_mem_nil, or_false] at hd
    rcases hd with rfl | rfl | rfl | rfl
    · decide
    all_goals exact hoctal _
  · rw [hform] at hd
    rw [List.mem_singleton.mp hd]
    exact hcontrol

/-- A quoted string is read by Java as one literal that ends at the closing quote, whatever follows,
and that stands for this string and no other. Strings have different escaped forms, in which every
quote is escaped and neither a control character nor the end of a line occurs. Text blocks are left
out: an empty string with a quote right behind it would open one, and is no literal to the machine
that reads lexemes. -/
theorem quoted_string_reads_back (s : String) (rest : List Char) :
    (∃ units, stringLiteral? (inputUnits ((quote s).toList ++ rest)) =
        some (units, inputUnits rest) ∧
      ∀ t : String, t.toList.flatMap utf16 = units ↔ t = s) ∧
    (∀ t, escape t = escape s → t = s) ∧
    hasRawQuote (escape s).toList = false ∧
    ∀ c ∈ (escape s).toList, isControl c = false ∧ c ≠ '\n' ∧ c ≠ '\r' := by
  have hchars : (escape s).toList = escapeChars s.toList := String.toList_ofList
  refine ⟨⟨_, stringLiteral?_quote s rest, ?_⟩, fun t => escape_injective, ?_, ?_⟩
  · intro t
    constructor
    · intro h
      exact String.toList_inj.mp (flatMap_utf16_inj h)
    · intro h
      rw [h]
  · rw [hchars]
    exact hasRawQuote_escapeChars s.toList
  · intro c hc
    rw [hchars] at hc
    have hcontrol := isControl_escapeChars c hc
    refine ⟨hcontrol, ?_, ?_⟩ <;> intro heq <;> rw [heq] at hcontrol <;>
      exact absurd hcontrol (by decide)

end RpgLowering.Text
