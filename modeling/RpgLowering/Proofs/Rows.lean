import RpgLowering.Proofs.Separation

/-! The lines of printed classes one by one. A row is what a line says, and the text of a row
determines the row. -/
namespace RpgLowering.Target
open Text

/-- What a line of a printed class says. -/
inductive Row where
  | blank
  | classHead (modifiers : List Modifier) (name : String)
  | field (f : Field)
  | methodHead (modifiers : List Modifier) (returns : Ty) (name : String)
      (parameters : List Parameter)
  | expr (e : Expr)
  | opening
  | closing
  | branch (condition : Expr)
  /-- An `if` behind an `else`. -/
  | chained (condition : Expr)
  | otherwise
  | loop (init : List Expr) (test : Option Expr) (update : List Expr)

/-- What follows the name of a field. -/
def initializerText : Option Expr → String
  | some e => " = " ++ e.text ++ ";"
  | none => ";"

def Row.text : Row → String
  | .blank => ""
  | .classHead ms n => modifiersText ms ++ "class " ++ n ++ " \x7b"
  | .field f =>
    modifiersText f.modifiers ++ f.ty.text ++ " " ++ f.name ++ initializerText f.initializer
  | .methodHead ms t n ps =>
    modifiersText ms ++ t.text ++ " " ++ n ++ "(" ++ commaSeparated (ps.map Parameter.text) ++
      ") \x7b"
  | .expr e => e.text ++ ";"
  | .opening => "\x7b"
  | .closing => "\x7d"
  | .branch c => "if (" ++ c.text ++ ") \x7b"
  | .chained c => "\x7d else if (" ++ c.text ++ ") \x7b"
  | .otherwise => "\x7d else \x7b"
  | .loop init test update =>
    "for (" ++ commaSeparated (Expr.texts init) ++ "; " ++ commaSeparated (Expr.texts test.toList) ++
      "; " ++ commaSeparated (Expr.texts update) ++ ") \x7b"

/-- Names are identifiers, and expressions are as they are read. -/
def Row.Readable (L : Letters) : Row → Prop
  | .blank | .opening | .closing | .otherwise => True
  | .classHead _ n => L.Identifier n.toList
  | .field f => f.ty.Readable L ∧ L.Identifier f.name.toList ∧ ∀ e ∈ f.initializer, e.Qualified L
  | .methodHead _ t n ps => t.Readable L ∧ L.Identifier n.toList ∧ ∀ p ∈ ps, p.Readable L
  | .expr e | .branch e | .chained e => e.Qualified L
  | .loop init test update =>
    Expr.AllQualified L init ∧ Expr.AllQualified L test.toList ∧ Expr.AllQualified L update

section
variable {L : Letters}

theorem toList_classHead (ms : List Modifier) (n : String) : (Row.classHead ms n).text.toList =
    (modifiersText ms).toList ++ ("class".toList ++ ' ' :: (n.toList ++ " \x7b".toList)) := by
  simp [Row.text]

theorem toList_field (f : Field) : (Row.field f).text.toList = (modifiersText f.modifiers).toList ++
    (f.ty.text.toList ++ ' ' :: (f.name.toList ++ (initializerText f.initializer).toList)) := by
  simp [Row.text]

theorem toList_methodHead (ms : List Modifier) (t : Ty) (n : String) (ps : List Parameter) :
    (Row.methodHead ms t n ps).text.toList = (modifiersText ms).toList ++ (t.text.toList ++
      ' ' :: (n.toList ++ '(' :: ((commaSeparated (ps.map Parameter.text)).toList ++
        ") \x7b".toList))) := by
  simp [Row.text]

theorem toList_loop (init : List Expr) (test : Option Expr) (update : List Expr) :
    (Row.loop init test update).text.toList = "for (".toList ++
      ((commaSeparated (Expr.texts init)).toList ++ ';' ::
        ' ' :: ((commaSeparated (Expr.texts test.toList)).toList ++ ';' ::
          ' ' :: ((commaSeparated (Expr.texts update)).toList ++ ") \x7b".toList))) := by
  simp [Row.text]

/-! ### Kinds of rows -/

inductive Kind where
  | blank
  | line
  | head
  | opening
  | closing
  | branch
  | continuation
  | loop
  deriving DecidableEq

def Row.kind : Row → Kind
  | .blank => .blank
  | .field _ | .expr _ => .line
  | .classHead .. | .methodHead .. => .head
  | .opening => .opening
  | .closing => .closing
  | .branch _ => .branch
  | .chained _ | .otherwise => .continuation
  | .loop .. => .loop

def kindOfWord (word : List Char) : Kind :=
  if word = ['\x7b'] then .opening
  else if word = ['\x7d'] then .continuation
  else if word = ['i', 'f'] then .branch
  else if word = ['f', 'o', 'r'] then .loop
  else .head

/-- The kind of a row by the last character of its text and the first word. -/
def kindOf (text : List Char) : Kind :=
  match text.getLast? with
  | none => .blank
  | some ';' => .line
  | some '\x7d' => .closing
  | some _ => kindOfWord (text.takeWhile (· != ' '))

theorem kindOf_line (text : List Char) : kindOf (text ++ [';']) = .line := by
  simp [kindOf]

theorem kindOf_braced {w : List Char} {kind : Kind} (hw : ' ' ∉ w)
    (hkind : kindOfWord w = kind) (rest : List Char) :
    kindOf (w ++ ' ' :: (rest ++ ['\x7b'])) = kind := by
  have hlast : (w ++ ' ' :: (rest ++ ['\x7b'])).getLast? = some '\x7b' := by
    rw [← List.cons_append, ← List.append_assoc, List.getLast?_concat]
  have hfirst := (split_word hw (rest ++ ['\x7b'])).1
  simp [kindOf, hlast, hfirst, hkind]

theorem kindOfWord_ty {t : Ty} (ht : t.Readable L) : kindOfWord t.text.toList = .head := by
  by_cases hword : t.text ∈ reservedWords
  · have hno : ∀ t ∈ primitiveTypes, kindOfWord t.text.toList = .head := by decide
    exact hno t (mem_primitiveTypes ht hword)
  · have hne : ∀ w ∈ reservedWords, t.text.toList ≠ w.toList := by
      intro w hw heq
      rw [String.toList_inj] at heq
      exact hword (heq ▸ hw)
    have hbrace : ∀ d : Char, Outside d → d ≠ '.' → t.text.toList ≠ [d] := by
      intro d hd hdot heq
      have hmem := not_mem_tyText ht hd hdot
      rw [heq] at hmem
      exact hmem List.mem_cons_self
    have hif : t.text.toList ≠ ['i', 'f'] := hne "if" (by decide)
    have hfor : t.text.toList ≠ ['f', 'o', 'r'] := hne "for" (by decide)
    rw [kindOfWord, if_neg (hbrace '\x7b' (by decide) (by decide)),
      if_neg (hbrace '\x7d' (by decide) (by decide)), if_neg hif, if_neg hfor]

/-- Modifiers do not change the kind. -/
theorem kindOf_head (ms : List Modifier) {w : String} (hw : EndsModifiers w)
    (hkind : kindOfWord w.toList = .head) (rest : List Char) :
    kindOf ((modifiersText ms).toList ++ (w.toList ++ ' ' :: (rest ++ ['\x7b']))) = .head := by
  cases ms with
  | nil => exact kindOf_braced hw.space hkind rest
  | cons m ms =>
    have hm : kindOfWord m.text.toList = .head := by cases m <;> decide
    have hbraced := kindOf_braced (space_not_mem_modifier m) hm
      ((modifiersText ms).toList ++ (w.toList ++ ' ' :: rest))
    rw [← hbraced, toList_modifiersText_cons]
    simp only [List.append_assoc, List.cons_append]

theorem kindOf_text {r : Row} (hr : r.Readable L) : kindOf r.text.toList = r.kind := by
  cases r with
  | blank | opening | closing => rfl
  | otherwise => decide
  | classHead ms n =>
    have hkind := kindOf_head ms endsModifiers_class (by decide) (n.toList ++ [' '])
    rw [toList_classHead]
    simpa [Row.kind] using hkind
  | field f =>
    have htail : ∃ tail : List Char, (initializerText f.initializer).toList = tail ++ [';'] := by
      cases f.initializer with
      | none => exact ⟨[], rfl⟩
      | some e => exact ⟨" = ".toList ++ e.text.toList, by simp [initializerText]⟩
    obtain ⟨tail, htail⟩ := htail
    have hline := kindOf_line ((modifiersText f.modifiers).toList ++
      (f.ty.text.toList ++ ' ' :: (f.name.toList ++ tail)))
    rw [toList_field, htail]
    simpa [Row.kind] using hline
  | methodHead ms t n ps =>
    have hkind := kindOf_head ms (endsModifiers_ty hr.1) (kindOfWord_ty hr.1)
      (n.toList ++ '(' :: ((commaSeparated (ps.map Parameter.text)).toList ++ [')', ' ']))
    rw [toList_methodHead]
    simpa [Row.kind] using hkind
  | expr e =>
    rw [Row.text, String.toList_append]
    exact kindOf_line e.text.toList
  | branch c =>
    have hword : kindOfWord ['i', 'f'] = .branch := by decide
    have hkind := kindOf_braced (by decide) hword ('(' :: (c.text.toList ++ [')', ' ']))
    simpa [Row.text, Row.kind] using hkind
  | chained c =>
    have hword : kindOfWord ['\x7d'] = .continuation := by decide
    have hkind := kindOf_braced (by decide) hword
      ("else if (".toList ++ (c.text.toList ++ [')', ' ']))
    simpa [Row.text, Row.kind] using hkind
  | loop init test update =>
    have hword : kindOfWord ['f', 'o', 'r'] = .loop := by decide
    have hkind := kindOf_braced (by decide) hword
      ('(' :: ((commaSeparated (Expr.texts init)).toList ++ ';' ::
        ' ' :: ((commaSeparated (Expr.texts test.toList)).toList ++ ';' ::
          ' ' :: ((commaSeparated (Expr.texts update)).toList ++ [')', ' ']))))
    rw [toList_loop]
    simpa [Row.kind] using hkind

/-! ### Rows with one text -/

theorem eq_of_classHead {ms ms' : List Modifier} {n n' : String}
    (h : (Row.classHead ms n).text = (Row.classHead ms' n').text) : ms = ms' ∧ n = n' := by
  have htext := congrArg String.toList h
  rw [toList_classHead, toList_classHead] at htext
  obtain ⟨hms, -, hname⟩ := modifiers_inj endsModifiers_class endsModifiers_class htext
  exact ⟨hms, String.toList_inj.mp (List.append_cancel_right hname)⟩

/-- What is declared behind a type is a name, and what follows does not belong to it. -/
theorem declared_inj {ms ms' : List Modifier} {t t' : Ty} {n n' : String} {rest rest' : List Char}
    (ht : t.Readable L) (ht' : t'.Readable L) (hn : L.Identifier n.toList)
    (hn' : L.Identifier n'.toList) (hrest : EndsWord rest) (hrest' : EndsWord rest')
    (h : (modifiersText ms).toList ++ (t.text.toList ++ ' ' :: (n.toList ++ rest)) =
      (modifiersText ms').toList ++ (t'.text.toList ++ ' ' :: (n'.toList ++ rest'))) :
    ms = ms' ∧ t = t' ∧ n = n' ∧ rest = rest' := by
  obtain ⟨hms, hty, hnames⟩ := modifiers_inj (endsModifiers_ty ht) (endsModifiers_ty ht') h
  obtain ⟨hname, htail⟩ := cut_inj hn.part hn'.part (part_of_endsWord hrest)
    (part_of_endsWord hrest') hnames
  exact ⟨hms, eq_of_tyText ht ht' hty, String.toList_inj.mp hname, htail⟩

theorem endsWord_initializerText (o : Option Expr) : EndsWord (initializerText o).toList := by
  cases o <;> simp [EndsWord, initializerText]

theorem eq_of_initializerText {o o' : Option Expr} (ho : ∀ e ∈ o, e.Qualified L)
    (ho' : ∀ e ∈ o', e.Qualified L) (h : initializerText o = initializerText o') : o = o' := by
  have htext := congrArg String.toList h
  cases o with
  | none =>
    cases o' with
    | none => rfl
    | some e' => simp [initializerText] at htext
  | some e =>
    cases o' with
    | none => simp [initializerText] at htext
    | some e' =>
      have he : e.text = e'.text := String.toList_inj.mp (by simpa [initializerText] using htext)
      rw [(ho e rfl).eq_of_text (ho' e' rfl) he]

theorem eq_of_field {f f' : Field} (hf : (Row.field f).Readable L) (hf' : (Row.field f').Readable L)
    (h : (Row.field f).text = (Row.field f').text) : f = f' := by
  have htext := congrArg String.toList h
  rw [toList_field, toList_field] at htext
  obtain ⟨hms, hty, hname, htail⟩ := declared_inj hf.1 hf'.1 hf.2.1 hf'.2.1
    (endsWord_initializerText _) (endsWord_initializerText _) htext
  have hinitializer := eq_of_initializerText hf.2.2 hf'.2.2 (String.toList_inj.mp htail)
  cases f
  cases f'
  simp_all

theorem eq_of_methodHead {ms ms' : List Modifier} {t t' : Ty} {n n' : String}
    {ps ps' : List Parameter} (hr : (Row.methodHead ms t n ps).Readable L)
    (hr' : (Row.methodHead ms' t' n' ps').Readable L)
    (h : (Row.methodHead ms t n ps).text = (Row.methodHead ms' t' n' ps').text) :
    Row.methodHead ms t n ps = .methodHead ms' t' n' ps' := by
  have htext := congrArg String.toList h
  rw [toList_methodHead, toList_methodHead] at htext
  obtain ⟨hms, hty, hname, hrest⟩ := declared_inj hr.1 hr'.1 hr.2.1 hr'.2.1 (by simp [EndsWord])
    (by simp [EndsWord]) htext
  have hparameters := String.toList_inj.mp (List.append_cancel_right (List.cons.inj hrest).2)
  rw [hms, hty, hname, eq_of_parametersText hr.2.2 hr'.2.2 hparameters]

theorem classHead_ne_methodHead {ms ms' : List Modifier} {n n' : String} {t : Ty}
    {ps : List Parameter} (ht : t.Readable L) :
    (Row.classHead ms n).text ≠ (Row.methodHead ms' t n' ps).text := by
  intro h
  have htext := congrArg String.toList h
  rw [toList_classHead, toList_methodHead] at htext
  exact tyText_ne_class ht (modifiers_inj endsModifiers_class (endsModifiers_ty ht) htext).2.1.symm

theorem eq_of_loop {init init' update update' : List Expr} {test test' : Option Expr}
    (hr : (Row.loop init test update).Readable L) (hr' : (Row.loop init' test' update').Readable L)
    (h : (Row.loop init test update).text = (Row.loop init' test' update').text) :
    Row.loop init test update = .loop init' test' update' := by
  have htext := congrArg String.toList h
  rw [toList_loop, toList_loop] at htext
  obtain ⟨hinit, htext⟩ := hr.1.cut hr'.1 (List.append_cancel_left htext)
  obtain ⟨htest, htext⟩ := hr.2.1.cut hr'.2.1 (List.cons.inj htext).2
  have hclosed := List.append_cancel_right (List.cons.inj htext).2
  have hupdate := (hr.2.2.cut hr'.2.2 (congrArg (· ++ [';']) hclosed)).1
  have htest : test = test' := by simpa using congrArg List.head? htest
  rw [hinit, htest, hupdate]

/-! A field is not read as an expression: it starts with a keyword or with two names. -/

/-- A reserved word that no expression contains. -/
def Keyword (w : String) : Prop :=
  w ∈ reservedWords ∧ w ≠ "this" ∧ (w.toList.all fun c => c.isAlpha && decide (c.toNat < 128)) = true

instance (w : String) : Decidable (Keyword w) := inferInstanceAs (Decidable (_ ∧ _ ∧ _))

theorem lexemesFrom_keyword {w : String} (h : Keyword w) (rest : List Char) :
    lexemesFrom L .between (w.toList ++ ' ' :: rest) = .bad :: lexemesFrom L .between rest := by
  obtain ⟨hreserved, hthis, hletters⟩ := h
  have hchars : ∀ c ∈ w.toList, L.start c = true ∧ L.part c = true := by
    intro c hc
    have hletter := List.all_eq_true.mp hletters c hc
    rw [Bool.and_eq_true, decide_eq_true_eq] at hletter
    rw [L.ascii_start c hletter.2, L.ascii_part c hletter.2, Char.isAlphanum, hletter.1]
    exact ⟨rfl, rfl⟩
  have hlexeme : wordLexeme w.toList = .bad := by
    rw [wordLexeme, String.ofList_toList, if_neg hthis, if_pos hreserved]
  have hne : w.toList ≠ [] := by
    intro hnil
    have hempty : w = "" := by simpa using hnil
    rw [hempty] at hreserved
    exact absurd hreserved (by decide)
  obtain ⟨c, cs, hcs⟩ := List.exists_cons_of_ne_nil hne
  rw [hcs] at hchars hlexeme ⊢
  have hends : EndsWord (' ' :: rest) := by simp [EndsWord]
  have hword := lexemesFrom_wordChars (fun d hd => (hchars d (List.mem_cons_of_mem _ hd)).2)
    (part_of_endsWord hends) [c]
  rw [List.cons_append, lexemesFrom, step, start_of_start (hchars c List.mem_cons_self).1,
    List.nil_append, hword, List.reverse_singleton, List.singleton_append, hlexeme,
    lexemesFrom_space]

theorem operation_bad (n least : Nat) (ls : List Lexeme) : operation n least (.bad :: ls) = none := by
  match n with
  | 0 | 1 | 2 => rfl
  | n + 3 => rfl

theorem field_starts (f : Field) :
    (∃ w rest, Keyword w ∧ (Row.field f).text.toList = w.toList ++ ' ' :: rest) ∨
      ∃ n, f.modifiers = [] ∧ f.ty = .named n := by
  rw [toList_field]
  cases f.modifiers with
  | cons m ms =>
    have hm : Keyword m.text := by cases m <;> decide
    rw [toList_modifiersText_cons, List.append_assoc]
    exact .inl ⟨m.text, _, hm, rfl⟩
  | nil =>
    cases f.ty with
    | named n => exact .inr ⟨n, rfl, rfl⟩
    | long => exact .inl ⟨"long", _, by decide, rfl⟩
    | double => exact .inl ⟨"double", _, by decide, rfl⟩
    | boolean => exact .inl ⟨"boolean", _, by decide, rfl⟩
    | void => exact .inl ⟨"void", _, by decide, rfl⟩

theorem expr_ne_field {e : Expr} {f : Field} (he : e.Qualified L) (hf : (Row.field f).Readable L) :
    (Row.expr e).text ≠ (Row.field f).text := by
  intro h
  obtain ⟨o, ho, rfl⟩ := he
  have htext : o.text.toList ++ [';'] = (Row.field f).text.toList := by
    rw [← h, Row.text, text_qualified, String.toList_append]
    rfl
  have hread := operation_text ho
  rw [htext] at hread
  cases field_starts f with
  | inl hkeyword =>
    obtain ⟨w, rest, hw, hfield⟩ := hkeyword
    have hnone := hread _ le_rfl
    rw [hfield, lexemesFrom_keyword hw, operation_bad] at hnone
    cases hnone
  | inr hnamed =>
    obtain ⟨n, hms, hty⟩ := hnamed
    obtain ⟨hdotted, hname, -⟩ := hf
    rw [hty] at hdotted
    have hends : EndsWord (' ' :: (f.name.toList ++ (initializerText f.initializer).toList)) := by
      simp [EndsWord]
    have hlexemes := lexemesFrom_dotted hdotted (List.splitOn_ne_nil _ _) hends
    rw [List.intercalate_splitOn, lexemesFrom_space,
      lexemesFrom_word hname (endsWord_initializerText _), String.ofList_toList] at hlexemes
    have hfield : (Row.field f).text.toList =
        n.toList ++ ' ' :: (f.name.toList ++ (initializerText f.initializer).toList) := by
      rw [toList_field, hms, hty]
      rfl
    have hstops : Stops 0 (.word f.name ::
        lexemesFrom L .between (initializerText f.initializer).toList) :=
      stops_cons (by simp) (by simp [Operator.ofLexeme?]) _
    have hwhole := ((readsPrimary_name n).reads 0 0).whole le_rfl le_rfl hstops
      (6 * (o.lexemes.length + (dottedLexemes (n.toList.splitOn '.')).length) + 4) (by omega)
    rw [← hlexemes, ← hfield, hread _ (by omega)] at hwhole
    simp at hwhole

theorem otherwise_ne_chained (c : Expr) : Row.otherwise.text ≠ (Row.chained c).text := by
  intro h
  have htext := congrArg String.toList h
  simp [Row.text] at htext

/-- The text of a line says what the line is. -/
theorem Row.eq_of_text {r r' : Row} (hr : r.Readable L) (hr' : r'.Readable L)
    (h : r.text = r'.text) : r = r' := by
  have hkind : r.kind = r'.kind := by rw [← kindOf_text hr, ← kindOf_text hr', h]
  cases r with
  | blank =>
    cases r' with
    | blank => rfl
    | _ => cases hkind
  | opening =>
    cases r' with
    | opening => rfl
    | _ => cases hkind
  | closing =>
    cases r' with
    | closing => rfl
    | _ => cases hkind
  | classHead ms n =>
    cases r' with
    | classHead ms' n' =>
      obtain ⟨hms, hn⟩ := eq_of_classHead h
      rw [hms, hn]
    | methodHead ms' t' n' ps' => exact absurd h (classHead_ne_methodHead hr'.1)
    | _ => cases hkind
  | field f =>
    cases r' with
    | field f' => rw [eq_of_field hr hr' h]
    | expr e' => exact absurd h.symm (expr_ne_field hr' hr)
    | _ => cases hkind
  | methodHead ms t n ps =>
    cases r' with
    | classHead ms' n' => exact absurd h.symm (classHead_ne_methodHead hr.1)
    | methodHead ms' t' n' ps' => exact eq_of_methodHead hr hr' h
    | _ => cases hkind
  | expr e =>
    cases r' with
    | field f' => exact absurd h (expr_ne_field hr hr')
    | expr e' =>
      have he : e.text = e'.text := by simpa [Row.text] using h
      rw [hr.eq_of_text hr' he]
    | _ => cases hkind
  | branch c =>
    cases r' with
    | branch c' =>
      have hc : c.text = c'.text := by simpa [Row.text] using h
      rw [hr.eq_of_text hr' hc]
    | _ => cases hkind
  | chained c =>
    cases r' with
    | chained c' =>
      have hc : c.text = c'.text := by simpa [Row.text] using h
      rw [hr.eq_of_text hr' hc]
    | otherwise => exact absurd h.symm (otherwise_ne_chained c)
    | _ => cases hkind
  | otherwise =>
    cases r' with
    | chained c' => exact absurd h (otherwise_ne_chained c')
    | otherwise => rfl
    | _ => cases hkind
  | loop init test update =>
    cases r' with
    | loop init' test' update' => exact eq_of_loop hr hr' h
    | _ => cases hkind

/-! ### Rows stay on their lines -/

theorem inline_tyText {t : Ty} (ht : t.Readable L) : Inline t.text.toList := by
  cases t with
  | named n => exact inline_dotted ht
  | _ => exact ⟨⟨_, rfl, by decide⟩, by decide⟩

theorem newline_not_mem_modifiersText (ms : List Modifier) : '\n' ∉ (modifiersText ms).toList := by
  induction ms with
  | nil => exact List.not_mem_nil
  | cons m ms ih =>
    have hm : '\n' ∉ m.text.toList := by cases m <;> decide
    rw [toList_modifiersText_cons]
    simp [hm, ih]

theorem inline_modifiers (ms : List Modifier) {w : String} {rest : List Char}
    (hw : Inline w.toList) (hrest : '\n' ∉ rest) :
    Inline ((modifiersText ms).toList ++ (w.toList ++ ' ' :: rest)) := by
  cases ms with
  | nil =>
    apply hw.append
    simpa using hrest
  | cons m ms =>
    have hm : Inline m.text.toList := by cases m <;> exact ⟨⟨_, rfl, by decide⟩, by decide⟩
    rw [toList_modifiersText_cons, List.append_assoc]
    apply hm.append
    simp [newline_not_mem_modifiersText ms, hw.line, hrest]

theorem Expr.Qualified.inline {e : Expr} (he : e.Qualified L) : Inline e.text.toList := by
  obtain ⟨o, ho, rfl⟩ := he
  rw [text_qualified]
  exact inline_text o ho

theorem Expr.AllQualified.line {es : List Expr} (hes : Expr.AllQualified L es) :
    '\n' ∉ (commaSeparated (Expr.texts es)).toList := by
  obtain ⟨os, hos, rfl⟩ := hes
  rw [texts_qualified]
  exact newline_not_mem_commaSeparated (newline_not_mem_texts os hos)

theorem newline_not_mem_parameters {ps : List Parameter} (hps : ∀ p ∈ ps, p.Readable L) :
    '\n' ∉ (commaSeparated (ps.map Parameter.text)).toList := by
  apply newline_not_mem_commaSeparated
  intro t ht
  obtain ⟨p, hp, rfl⟩ := List.mem_map.mp ht
  have hty := (inline_tyText (hps p hp).1).line
  have hname := (inline_identifier (hps p hp).2).line
  simp [Parameter.text, hty, hname]

theorem Row.inline_or_blank {r : Row} (hr : r.Readable L) : Inline r.text.toList ∨ r.text = "" := by
  cases r with
  | blank => exact .inr rfl
  | opening | closing | otherwise => exact .inl ⟨⟨_, rfl, by decide⟩, by decide⟩
  | classHead ms n =>
    rw [toList_classHead]
    refine .inl (inline_modifiers ms ⟨⟨_, rfl, by decide⟩, by decide⟩ ?_)
    simp [(inline_identifier hr).line]
  | field f =>
    have hinitializer : '\n' ∉ (initializerText f.initializer).toList := by
      have hreadable := hr.2.2
      revert hreadable
      cases f.initializer with
      | none => simp [initializerText]
      | some e =>
        intro hreadable
        simp [initializerText, (hreadable e rfl).inline.line]
    rw [toList_field]
    refine .inl (inline_modifiers _ (inline_tyText hr.1) ?_)
    simp [(inline_identifier hr.2.1).line, hinitializer]
  | methodHead ms t n ps =>
    rw [toList_methodHead]
    refine .inl (inline_modifiers ms (inline_tyText hr.1) ?_)
    simp [(inline_identifier hr.2.1).line, newline_not_mem_parameters hr.2.2]
  | expr e =>
    rw [Row.text, String.toList_append]
    exact .inl (hr.inline.append (by decide))
  | branch c =>
    have hc := hr.inline.line
    exact .inl ⟨⟨'i', by simp [Row.text], by decide⟩, by simp [Row.text, hc]⟩
  | chained c =>
    have hc := hr.inline.line
    exact .inl ⟨⟨'\x7d', by simp [Row.text], by decide⟩, by simp [Row.text, hc]⟩
  | loop init test update =>
    rw [toList_loop]
    exact .inl ⟨⟨'f', by simp, by decide⟩, by simp [hr.1.line, hr.2.1.line, hr.2.2.line]⟩

end

end RpgLowering.Target
