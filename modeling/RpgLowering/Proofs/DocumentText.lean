import RpgLowering.Document.Print
import RpgLowering.Proofs.Numerals

/-! Documents written as text and read again. The text of a document falls into the tokens of the
document, in either form, and the tokens make the document again. -/
namespace RpgLowering.Document
open RpgLowering.Text (hexValue?)

/-- A numeral that is kept apart from what stands around it. -/
structure NumberWord (literal : List Char) : Prop where
  nonempty : literal ≠ []
  chars : ∀ c ∈ literal, isWordChar c = true
  token : wordToken literal = .number literal

mutual

/-- Every string has a text, every number is a numeral, and nothing is cut off. -/
def Proper : Document → Prop
  | .null | .bool _ => True
  | .number literal => NumberWord literal
  | .string text => text.isSome
  | .array items => AllProper items
  | .object members => MembersProper members
  | .cut => False

def AllProper : List Document → Prop
  | [] => True
  | d :: ds => d.Proper ∧ AllProper ds

def MembersProper : List (Option String × Document) → Prop
  | [] => True
  | (key, d) :: ms => key.isSome ∧ d.Proper ∧ MembersProper ms

end

mutual

def toTokens : Document → List Token
  | .null => [.null]
  | .bool b => [.bool b]
  | .number literal => [.number literal]
  | .string text => [.string text]
  | .array [] => [.openArray, .closeArray]
  | .array (d :: ds) => .openArray :: (d.toTokens ++ itemTokens ds)
  | .object [] => [.openObject, .closeObject]
  | .object ((key, d) :: ms) =>
    .openObject :: .string key :: .colon :: (d.toTokens ++ memberTokens ms)
  | .cut => [.bad]

/-- The items after the first, and the closing bracket. -/
def itemTokens : List Document → List Token
  | [] => [.closeArray]
  | d :: ds => .comma :: (d.toTokens ++ itemTokens ds)

/-- The members after the first, and the closing brace. -/
def memberTokens : List (Option String × Document) → List Token
  | [] => [.closeObject]
  | (key, d) :: ms => .comma :: .string key :: .colon :: (d.toTokens ++ memberTokens ms)

end

/-! ### From text to tokens -/

/-- The text goes on with something that cannot belong to a word. -/
def Ends (rest : List Char) : Prop := ∀ c ∈ rest.head?, isWordChar c = false

theorem start_of_isWordChar {c : Char} (hc : isWordChar c = true) :
    start c = ([], .word [c]) := by
  have hblank : isBlank c = false := by
    cases h : isBlank c with
    | false => rfl
    | true =>
      simp only [isBlank, Bool.or_eq_true, beq_iff_eq] at h
      rcases h with ((rfl | rfl) | rfl) | rfl <;> revert hc <;> decide
  unfold start
  rw [hblank]
  simp only [Bool.false_eq_true, if_false]
  split
  case h_8 => rw [if_pos hc]
  all_goals exact absurd hc (by decide)

theorem tokensFrom_word {word : List Char} (hw : ∀ c ∈ word, isWordChar c = true)
    {rest : List Char} (hr : Ends rest) (chars : List Char) :
    tokensFrom (.word chars) (word ++ rest) =
      wordToken (chars.reverse ++ word) :: tokensFrom .between rest := by
  induction word generalizing chars with
  | nil =>
    cases rest with
    | nil => simp [tokensFrom, finish]
    | cons c cs =>
      have hc : isWordChar c = false := hr c rfl
      simp [tokensFrom, step, hc]
  | cons c word ih =>
    have hc : isWordChar c = true := hw c List.mem_cons_self
    have htail := ih (fun d hd => hw d (List.mem_cons_of_mem _ hd)) (c :: chars)
    simp only [List.cons_append, tokensFrom, step, hc, if_true, List.nil_append, htail,
      List.reverse_cons, List.append_assoc]

theorem tokensFrom_between_word {word : List Char} (hne : word ≠ [])
    (hw : ∀ c ∈ word, isWordChar c = true) {rest : List Char} (hr : Ends rest) :
    tokensFrom .between (word ++ rest) = wordToken word :: tokensFrom .between rest := by
  cases word with
  | nil => exact absurd rfl hne
  | cons c word =>
    have hc : isWordChar c = true := hw c List.mem_cons_self
    have htail := tokensFrom_word (fun d hd => hw d (List.mem_cons_of_mem _ hd)) hr [c]
    rw [List.cons_append, tokensFrom, step, start_of_isWordChar hc, htail]
    rfl

theorem hexValue?_hexDigit : ∀ n < 16, hexValue? (hexDigit n) = some n := by decide

/-- A character of a string, escaped or not, adds its code. -/
theorem tokensFrom_escapeChar (codes : List Nat) (c : Char) (rest : List Char) :
    tokensFrom (.text codes) (escapeChar c ++ rest) = tokensFrom (.text (c.toNat :: codes)) rest := by
  unfold escapeChar
  split
  case h_8 _ hquote hback _ _ _ _ _ =>
    by_cases hlow : c.toNat < 0x20
    · have hhigh : hexValue? (hexDigit (c.toNat / 16)) = some (c.toNat / 16) :=
        hexValue?_hexDigit _ (by omega)
      have hunit : hexValue? (hexDigit (c.toNat % 16)) = some (c.toNat % 16) :=
        hexValue?_hexDigit _ (by omega)
      have hzero : hexValue? '0' = some 0 := by decide
      have hsum : c.toNat / 16 * 16 + c.toNat % 16 = c.toNat := by omega
      rw [if_pos hlow]
      simp [tokensFrom, step, hzero, hhigh, hunit, hsum]
    · have hq : c ≠ '"' := hquote
      have hb : c ≠ '\\' := hback
      rw [if_neg hlow]
      simp [tokensFrom, step, hq, hb, hlow]
  all_goals rfl

theorem tokensFrom_text (s : List Char) (codes : List Nat) (rest : List Char) :
    tokensFrom (.text codes) (s.flatMap escapeChar ++ '"' :: rest) =
      .string ((textOf? (codes.reverse ++ s.map Char.toNat)).map String.ofList) ::
        tokensFrom .between rest := by
  induction s generalizing codes with
  | nil => simp [tokensFrom, step]
  | cons c s ih =>
    rw [List.flatMap_cons, List.append_assoc, tokensFrom_escapeChar, ih]
    simp

theorem not_surrogate (c : Char) : isHigh c.toNat = false ∧ isLow c.toNat = false := by
  have hvalid : c.toNat < 0xd800 ∨ 0xdfff < c.toNat ∧ c.toNat < 0x110000 := c.valid
  constructor
  · simp only [isHigh, Bool.and_eq_false_imp, decide_eq_true_eq, decide_eq_false_iff_not]
    omega
  · simp only [isLow, Bool.and_eq_false_imp, decide_eq_true_eq, decide_eq_false_iff_not]
    omega

theorem textOf?_codes (s : List Char) : textOf? (s.map Char.toNat) = some s := by
  induction s with
  | nil => rfl
  | cons c s ih =>
    obtain ⟨hhigh, hlow⟩ := not_surrogate c
    have hc : Char.ofNat c.toNat = c := Char.ofNat_toNat c
    cases s with
    | nil => simp [textOf?, hhigh, hlow, hc]
    | cons c' s =>
      simp only [List.map_cons] at ih ⊢
      simp [textOf?, hhigh, hlow, hc, ih]

theorem tokensFrom_writeString (s : String) (rest : List Char) :
    tokensFrom .between (writeString s rest) = .string (some s) :: tokensFrom .between rest := by
  have hopen : tokensFrom .between (writeString s rest) =
      tokensFrom (.text []) (s.toList.flatMap escapeChar ++ '"' :: rest) := rfl
  rw [hopen, tokensFrom_text, List.reverse_nil, List.nil_append, textOf?_codes, Option.map_some,
    String.ofList_toList]

theorem tokensFrom_spaces (n : Nat) (rest : List Char) :
    tokensFrom .between (List.replicate n ' ' ++ rest) = tokensFrom .between rest := by
  induction n with
  | zero => rfl
  | succ n ih =>
    rw [List.replicate_succ, List.cons_append, tokensFrom]
    exact ih

@[simp] theorem tokensFrom_writeBreak (form : Form) (level : Nat) (rest : List Char) :
    tokensFrom .between (writeBreak form level rest) = tokensFrom .between rest := by
  cases form with
  | compact => rfl
  | pretty => exact tokensFrom_spaces (2 * level) rest

@[simp] theorem tokensFrom_writeColon (form : Form) (rest : List Char) :
    tokensFrom .between (writeColon form rest) = .colon :: tokensFrom .between rest := by
  cases form <;> rfl

theorem ends_writeBreak (form : Form) (level : Nat) {rest : List Char} (hr : Ends rest) :
    Ends (writeBreak form level rest) := by
  cases form with
  | compact => exact hr
  | pretty =>
    rintro _ ⟨⟩
    decide

theorem ends_writeItems (form : Form) (level : Nat) (ds : List Document) (rest : List Char) :
    Ends (writeItems form level ds rest) := by
  cases ds with
  | nil =>
    refine ends_writeBreak form level ?_
    rintro _ ⟨⟩
    decide
  | cons d ds =>
    rintro _ ⟨⟩
    decide

theorem ends_writeMembers (form : Form) (level : Nat) (ms : List (Option String × Document))
    (rest : List Char) : Ends (writeMembers form level ms rest) := by
  match ms with
  | [] =>
    refine ends_writeBreak form level ?_
    rintro _ ⟨⟩
    decide
  | (key, d) :: ms =>
    rintro _ ⟨⟩
    decide

mutual

theorem tokensFrom_write (form : Form) (level : Nat) (d : Document) (hd : d.Proper)
    {rest : List Char} (hr : Ends rest) :
    tokensFrom .between (d.write form level rest) = d.toTokens ++ tokensFrom .between rest := by
  match d with
  | .null =>
    exact tokensFrom_between_word (List.cons_ne_nil 'n' ['u', 'l', 'l'])
      (List.all_eq_true.mp (by decide)) hr
  | .bool true =>
    exact tokensFrom_between_word (List.cons_ne_nil 't' ['r', 'u', 'e'])
      (List.all_eq_true.mp (by decide)) hr
  | .bool false =>
    exact tokensFrom_between_word (List.cons_ne_nil 'f' ['a', 'l', 's', 'e'])
      (List.all_eq_true.mp (by decide)) hr
  | .number literal =>
    have hn : NumberWord literal := hd
    rw [write, toTokens, tokensFrom_between_word hn.nonempty hn.chars hr, hn.token]
    rfl
  | .string (some text) => exact tokensFrom_writeString text rest
  | .array [] => rfl
  | .array (d :: ds) =>
    have hstart : tokensFrom .between ((Document.array (d :: ds)).write form level rest) =
        .openArray :: tokensFrom .between (writeBreak form (level + 1)
          (d.write form (level + 1) (writeItems form level ds rest))) := by
      rw [write, tokensFrom]
      rfl
    rw [hstart, tokensFrom_writeBreak,
      tokensFrom_write form (level + 1) d hd.1 (ends_writeItems form level ds rest),
      tokensFrom_writeItems form level ds hd.2, toTokens, List.cons_append, List.append_assoc]
  | .object [] => rfl
  | .object ((some key, d) :: ms) =>
    have hstart : tokensFrom .between ((Document.object ((some key, d) :: ms)).write form level rest) =
        .openObject :: tokensFrom .between (writeBreak form (level + 1) (writeString key
          (writeColon form (d.write form (level + 1) (writeMembers form level ms rest))))) := by
      rw [write, tokensFrom]
      rfl
    rw [hstart, tokensFrom_writeBreak, tokensFrom_writeString, tokensFrom_writeColon,
      tokensFrom_write form (level + 1) d hd.2.1 (ends_writeMembers form level ms rest),
      tokensFrom_writeMembers form level ms hd.2.2, toTokens]
    simp only [List.cons_append, List.append_assoc]

theorem tokensFrom_writeItems (form : Form) (level : Nat) (ds : List Document) (hd : AllProper ds)
    {rest : List Char} :
    tokensFrom .between (writeItems form level ds rest) =
      itemTokens ds ++ tokensFrom .between rest := by
  match ds with
  | [] =>
    rw [writeItems, tokensFrom_writeBreak]
    rfl
  | d :: ds =>
    have hcomma : tokensFrom .between (writeItems form level (d :: ds) rest) =
        .comma :: tokensFrom .between (writeBreak form (level + 1)
          (d.write form (level + 1) (writeItems form level ds rest))) := by
      rw [writeItems, tokensFrom]
      rfl
    rw [hcomma, tokensFrom_writeBreak,
      tokensFrom_write form (level + 1) d hd.1 (ends_writeItems form level ds rest),
      tokensFrom_writeItems form level ds hd.2, itemTokens, List.cons_append, List.append_assoc]

theorem tokensFrom_writeMembers (form : Form) (level : Nat)
    (ms : List (Option String × Document)) (hm : MembersProper ms) {rest : List Char} :
    tokensFrom .between (writeMembers form level ms rest) =
      memberTokens ms ++ tokensFrom .between rest := by
  match ms with
  | [] =>
    rw [writeMembers, tokensFrom_writeBreak]
    rfl
  | (some key, d) :: ms =>
    have hcomma : tokensFrom .between (writeMembers form level ((some key, d) :: ms) rest) =
        .comma :: tokensFrom .between (writeBreak form (level + 1) (writeString key
          (writeColon form (d.write form (level + 1) (writeMembers form level ms rest))))) := by
      rw [writeMembers, tokensFrom]
      rfl
    rw [hcomma, tokensFrom_writeBreak, tokensFrom_writeString, tokensFrom_writeColon,
      tokensFrom_write form (level + 1) d hm.2.1 (ends_writeMembers form level ms rest),
      tokensFrom_writeMembers form level ms hm.2.2, memberTokens]
    simp only [List.cons_append, List.append_assoc]

end

theorem tokens_print (form : Form) {d : Document} (hd : d.Proper) :
    tokens (d.print form).toList = d.toTokens := by
  rw [print, String.toList_ofList, tokens, tokensFrom_write form 0 d hd (by simp [Ends])]
  simp [tokensFrom, finish]

/-! ### From tokens to documents -/

theorem toTokens_ne_close {d : Document} (hd : d.Proper) (ts rest : List Token) :
    d.toTokens ++ ts ≠ .closeArray :: rest := by
  match d with
  | .null | .bool _ | .number _ | .string _ | .array [] | .array (_ :: _) | .object [] |
    .object (_ :: _) => simp [toTokens]
  | .cut => exact hd.elim

theorem value_openArray {ts : List Token} (hts : ∀ rest, ts ≠ .closeArray :: rest) (n : Nat) :
    value (n + 1) (.openArray :: ts) = (.array (items n ts).1, (items n ts).2) := by
  cases ts with
  | nil => rfl
  | cons t ts =>
    cases t with
    | closeArray => exact absurd rfl (hts ts)
    | _ => rfl

mutual

/- Every call is for a part of the document, so twice the number of its tokens bounds the depth
of the calls. -/
theorem value_toTokens (d : Document) (hd : d.Proper) {n : Nat} (hn : 2 * d.toTokens.length ≤ n)
    (ts : List Token) : value n (d.toTokens ++ ts) = (d, some ts) := by
  match d, n with
  | .null, n + 1 | .bool _, n + 1 | .number _, n + 1 | .string _, n + 1 | .array [], n + 1
  | .object [], n + 1 => rfl
  | .null, 0 | .bool _, 0 | .number _, 0 | .string _, 0 | .array [], 0 | .object [], 0 =>
    simp [toTokens] at hn
  | .array (d :: ds), 0 => simp [toTokens] at hn
  | .array (d :: ds), n + 1 =>
    have hlen : 2 * (d.toTokens ++ itemTokens ds).length ≤ n := by
      rw [toTokens, List.length_cons] at hn
      omega
    have hitems := items_toTokens d ds hd hlen ts
    rw [toTokens, List.cons_append, List.append_assoc,
      value_openArray (toTokens_ne_close hd.1 _), hitems]
  | .object ((key, d) :: ms), 0 => simp [toTokens] at hn
  | .object ((key, d) :: ms), n + 1 =>
    have hlen : 2 * (d.toTokens ++ memberTokens ms).length ≤ n := by
      simp only [toTokens, List.length_cons] at hn
      omega
    have hmembers := members_toTokens key d ms hd.2 hlen ts
    rw [toTokens]
    simp only [List.cons_append, List.append_assoc, value, hmembers]

theorem items_toTokens (d : Document) (ds : List Document) (hd : AllProper (d :: ds)) {n : Nat}
    (hn : 2 * (d.toTokens ++ itemTokens ds).length ≤ n) (ts : List Token) :
    items n (d.toTokens ++ (itemTokens ds ++ ts)) = (d :: ds, some ts) := by
  match n, ds with
  | 0, [] | 0, _ :: _ => simp [itemTokens] at hn
  | n + 1, [] =>
    have hfirst := value_toTokens d hd.1 (n := n) (by simp [itemTokens] at hn; omega)
    simp only [itemTokens, items, hfirst, List.cons_append, List.nil_append]
  | n + 1, d' :: ds =>
    rw [List.length_append, itemTokens, List.length_cons] at hn
    have hfirst := value_toTokens d hd.1 (n := n) (by omega)
    have hrest := items_toTokens d' ds hd.2 (n := n) (by omega) ts
    simp only [itemTokens, items, hfirst, List.cons_append, List.append_assoc, hrest]

theorem members_toTokens (key : Option String) (d : Document)
    (ms : List (Option String × Document)) (hm : d.Proper ∧ MembersProper ms) {n : Nat}
    (hn : 2 * (d.toTokens ++ memberTokens ms).length ≤ n) (ts : List Token) :
    members n (.string key :: .colon :: (d.toTokens ++ (memberTokens ms ++ ts))) =
      ((key, d) :: ms, some ts) := by
  match n, ms with
  | 0, [] | 0, (_, _) :: _ => simp [memberTokens] at hn
  | n + 1, [] =>
    have hfirst := value_toTokens d hm.1 (n := n) (by simp [memberTokens] at hn; omega)
    simp only [memberTokens, members, hfirst, List.cons_append, List.nil_append]
  | n + 1, (key', d') :: ms =>
    simp only [List.length_append, memberTokens, List.length_cons] at hn
    have hfirst := value_toTokens d hm.1 (n := n) (by omega)
    have hrest := members_toTokens key' d' ms hm.2.2 (n := n)
      (by rw [List.length_append]; omega) ts
    simp only [memberTokens, members, hfirst, List.cons_append, List.append_assoc, hrest]

end

/-- What is written is read as it was. -/
theorem parse_print (form : Form) {d : Document} (hd : d.Proper) :
    parse (d.print form).toList = (d, true) := by
  have hvalue := value_toTokens d hd (n := 2 * d.toTokens.length + 1) (by omega) []
  rw [List.append_nil] at hvalue
  simp only [parse, tokens_print form hd, hvalue]
  rfl

/-! ### Nesting -/

mutual

/-- How many arrays and objects lie inside one another. -/
def depth : Document → Nat
  | .array items => itemsDepth items + 1
  | .object members => membersDepth members + 1
  | .null | .bool _ | .number _ | .string _ | .cut => 0

def itemsDepth : List Document → Nat
  | [] => 0
  | d :: ds => max d.depth (itemsDepth ds)

def membersDepth : List (Option String × Document) → Nat
  | [] => 0
  | (_, d) :: ms => max d.depth (membersDepth ms)

end

/-- The largest number of brackets open at once, given how many are open and the largest number
so far. -/
def nestingFrom (opened largest : Nat) : List Token → Nat
  | [] => largest
  | .openArray :: ts | .openObject :: ts => nestingFrom (opened + 1) (max largest (opened + 1)) ts
  | .closeArray :: ts | .closeObject :: ts => nestingFrom (opened - 1) largest ts
  | _ :: ts => nestingFrom opened largest ts

/-- How deep the brackets of a text are nested, those in strings apart. -/
def nesting (text : String) : Nat := nestingFrom 0 0 (tokens text.toList)

mutual

theorem nestingFrom_toTokens (d : Document) (opened largest : Nat) (ts : List Token)
    (h : opened ≤ largest) : nestingFrom opened largest (d.toTokens ++ ts) =
      nestingFrom opened (max largest (opened + d.depth)) ts := by
  match d with
  | .null | .bool _ | .number _ | .string _ | .cut =>
    simp [toTokens, nestingFrom, depth, Nat.max_eq_left h]
  | .array [] | .object [] => simp [toTokens, nestingFrom, depth, itemsDepth, membersDepth]
  | .array (d :: ds) =>
    simp only [toTokens, List.cons_append, List.append_assoc, nestingFrom]
    rw [nestingFrom_toTokens d _ _ _ (by omega), nestingFrom_itemTokens ds _ _ _ (by omega)]
    simp only [depth, itemsDepth]
    congr 1
    omega
  | .object ((key, d) :: ms) =>
    simp only [toTokens, List.cons_append, List.append_assoc, nestingFrom]
    rw [nestingFrom_toTokens d _ _ _ (by omega), nestingFrom_memberTokens ms _ _ _ (by omega)]
    simp only [depth, membersDepth]
    congr 1
    omega

theorem nestingFrom_itemTokens (ds : List Document) (opened largest : Nat) (ts : List Token)
    (h : opened + 1 ≤ largest) : nestingFrom (opened + 1) largest (itemTokens ds ++ ts) =
      nestingFrom opened (max largest (opened + 1 + itemsDepth ds)) ts := by
  match ds with
  | [] => simp [itemTokens, nestingFrom, itemsDepth, Nat.max_eq_left h]
  | d :: ds =>
    simp only [itemTokens, List.cons_append, List.append_assoc, nestingFrom]
    rw [nestingFrom_toTokens d _ _ _ (by omega), nestingFrom_itemTokens ds _ _ _ (by omega)]
    simp only [itemsDepth]
    congr 1
    omega

theorem nestingFrom_memberTokens (ms : List (Option String × Document)) (opened largest : Nat)
    (ts : List Token) (h : opened + 1 ≤ largest) :
    nestingFrom (opened + 1) largest (memberTokens ms ++ ts) =
      nestingFrom opened (max largest (opened + 1 + membersDepth ms)) ts := by
  match ms with
  | [] => simp [memberTokens, nestingFrom, membersDepth, Nat.max_eq_left h]
  | (key, d) :: ms =>
    simp only [memberTokens, List.cons_append, List.append_assoc, nestingFrom]
    rw [nestingFrom_toTokens d _ _ _ (by omega), nestingFrom_memberTokens ms _ _ _ (by omega)]
    simp only [membersDepth]
    congr 1
    omega

end

theorem nesting_print (form : Form) {d : Document} (hd : d.Proper) :
    nesting (d.print form) = d.depth := by
  have hall := nestingFrom_toTokens d 0 0 [] (Nat.le_refl 0)
  rw [List.append_nil, Nat.zero_add, Nat.zero_max, nestingFrom] at hall
  rw [nesting, tokens_print form hd, hall]

end RpgLowering.Document
