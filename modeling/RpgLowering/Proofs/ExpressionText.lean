import RpgLowering.Proofs.ReadBack
import RpgLowering.Proofs.StringLiteral

/-! What the text of an expression tells. Expressions with one text are equal up to the two ways of
writing a dotted name; a text ends where a semicolon follows; and it stays within its line. -/
namespace RpgLowering.Target
open Text

/-! ### Equal texts -/

theorem precedence_qualified (e : Expr) : e.qualified.precedence = e.precedence := by
  cases e with
  | field scope n =>
    rw [Expr.qualified]
    cases scope.qualified <;> rfl
  | call scope n args => cases scope <;> rfl
  | _ => rfl

theorem wrap_qualified (least : Nat) (e : Expr) (text : String) :
    wrap least e.qualified text = wrap least e text := by
  rw [wrap, wrap, precedence_qualified]

theorem text_select (e : Expr) (n : String) :
    (e.select n).text = wrap Precedence.primary e e.text ++ "." ++ n := by
  cases e <;> rfl

mutual

theorem text_qualified (e : Expr) : e.qualified.text = e.text := by
  match e with
  | .int v => rfl
  | .double x => rfl
  | .string s => rfl
  | .this => rfl
  | .name n => rfl
  | .field scope n =>
    rw [Expr.qualified, text_select, wrap_qualified, text_qualified scope, Expr.text]
  | .assign target value =>
    rw [Expr.qualified, Expr.text, wrap_qualified, wrap_qualified, text_qualified target,
      text_qualified value, Expr.text]
  | .binary op left right =>
    rw [Expr.qualified, Expr.text, wrap_qualified, wrap_qualified, text_qualified left,
      text_qualified right, Expr.text]
  | .increment e => rw [Expr.qualified, Expr.text, wrap_qualified, text_qualified e, Expr.text]
  | .call none n args => rw [Expr.qualified, Expr.text, texts_qualified args, Expr.text]
  | .call (some scope) n args =>
    rw [Expr.qualified, Expr.text, wrap_qualified, text_qualified scope, texts_qualified args,
      Expr.text]

theorem texts_qualified (es : List Expr) : Expr.texts (Expr.qualifiedAll es) = Expr.texts es := by
  match es with
  | [] => rfl
  | e :: es =>
    rw [Expr.qualifiedAll, Expr.texts, text_qualified e, texts_qualified es, Expr.texts]

end

theorem qualified_select (e : Expr) (n : String) : (e.select n).qualified = e.qualified.select n := by
  cases e <;> rfl

mutual

theorem qualified_qualified (e : Expr) : e.qualified.qualified = e.qualified := by
  match e with
  | .int v => rfl
  | .double x => rfl
  | .string s => rfl
  | .this => rfl
  | .name n => rfl
  | .field scope n => rw [Expr.qualified, qualified_select, qualified_qualified scope]
  | .assign target value =>
    rw [Expr.qualified, Expr.qualified, qualified_qualified target, qualified_qualified value]
  | .binary op left right =>
    rw [Expr.qualified, Expr.qualified, qualified_qualified left, qualified_qualified right]
  | .increment e => rw [Expr.qualified, Expr.qualified, qualified_qualified e]
  | .call none n args => rw [Expr.qualified, Expr.qualified, qualifiedAll_qualifiedAll args]
  | .call (some scope) n args =>
    rw [Expr.qualified, Expr.qualified, qualified_qualified scope, qualifiedAll_qualifiedAll args]

theorem qualifiedAll_qualifiedAll (es : List Expr) :
    Expr.qualifiedAll (Expr.qualifiedAll es) = Expr.qualifiedAll es := by
  match es with
  | [] => rfl
  | e :: es =>
    rw [Expr.qualifiedAll, Expr.qualifiedAll, qualified_qualified e, qualifiedAll_qualifiedAll es]

end

section
variable {L : Letters}

theorem qualified_of_text_eq {e e' : Expr} (he : e.Readable L) (he' : e'.Readable L)
    (h : e.text = e'.text) : e.qualified = e'.qualified := by
  have hread := read_text_eq_term he
  rw [h, read_text_eq_term he', Option.some.injEq] at hread
  rw [← toExpr_term e, ← hread, toExpr_term e']

theorem qualifiedAll_of_lexemes_eq {es es' : List Expr} (hes : Expr.AllReadable L es)
    (hes' : Expr.AllReadable L es') (h : Expr.argLexemes es = Expr.argLexemes es') :
    Expr.qualifiedAll es = Expr.qualifiedAll es' := by
  have hread := readsArguments (readsBack_all es hes) [] (6 * (Expr.argLexemes es).length + 6) le_rfl
  have hread' := readsArguments (readsBack_all es' hes') [] (6 * (Expr.argLexemes es').length + 6)
    le_rfl
  rw [h, hread', Option.some.injEq, Prod.mk.injEq] at hread
  rw [← toExprs_terms es, ← hread.1, toExprs_terms es']

/-! ### Where a text ends -/

/-- A semicolon ends a list of expressions, whatever their strings contain. -/
theorem cut_at_semicolon {es es' : List Expr} (hes : Expr.AllReadable L es)
    (hes' : Expr.AllReadable L es') {rest rest' : List Char}
    (h : (commaSeparated (Expr.texts es)).toList ++ ';' :: rest =
      (commaSeparated (Expr.texts es')).toList ++ ';' :: rest') :
    Expr.qualifiedAll es = Expr.qualifiedAll es' ∧ rest = rest' := by
  have hcut : ∀ {es : List Expr}, Expr.AllReadable L es → ∀ rest : List Char,
      lexemesFrom L .between ((commaSeparated (Expr.texts es)).toList ++ ';' :: rest) =
        Expr.argLexemes es ++ [.bad] := by
    intro es hes rest
    rw [lexemesFrom_arguments (falls_all es hes) (by simp [EndsLoosely]), lexemesFrom_semicolon]
  have hlexemes := congrArg (lexemesFrom L .between) h
  rw [hcut hes, hcut hes'] at hlexemes
  have hqualified := qualifiedAll_of_lexemes_eq hes hes' (List.append_cancel_right hlexemes)
  have htexts : Expr.texts es = Expr.texts es' := by
    rw [← texts_qualified es, hqualified, texts_qualified es']
  rw [htexts] at h
  exact ⟨hqualified, (List.cons.inj (List.append_cancel_left h)).2⟩

/-- The expression is what a text is read as. -/
def Expr.Qualified (L : Letters) (e : Expr) : Prop := ∃ o : Expr, o.Readable L ∧ o.qualified = e

def Expr.AllQualified (L : Letters) (es : List Expr) : Prop :=
  ∃ os : List Expr, Expr.AllReadable L os ∧ Expr.qualifiedAll os = es

theorem Expr.Qualified.eq_of_text {e e' : Expr} (he : e.Qualified L) (he' : e'.Qualified L)
    (h : e.text = e'.text) : e = e' := by
  obtain ⟨o, ho, rfl⟩ := he
  obtain ⟨o', ho', rfl⟩ := he'
  rw [text_qualified, text_qualified] at h
  exact qualified_of_text_eq ho ho' h

theorem Expr.AllQualified.cut {es es' : List Expr} (hes : Expr.AllQualified L es)
    (hes' : Expr.AllQualified L es') {rest rest' : List Char}
    (h : (commaSeparated (Expr.texts es)).toList ++ ';' :: rest =
      (commaSeparated (Expr.texts es')).toList ++ ';' :: rest') : es = es' ∧ rest = rest' := by
  obtain ⟨os, hos, rfl⟩ := hes
  obtain ⟨os', hos', rfl⟩ := hes'
  rw [texts_qualified, texts_qualified] at h
  exact cut_at_semicolon hos hos' h

/-- In front of a semicolon an expression is read to its end. -/
theorem operation_text {e : Expr} (he : e.Readable L) :
    ∀ n ≥ 6 * e.lexemes.length + 4,
      operation n 0 (lexemesFrom L .between (e.text.toList ++ [';'])) = some (e.term, [.bad]) := by
  have hlexemes := falls e he [';'] (.of_loose (by simp [EndsLoosely]) e)
  rw [lexemesFrom_semicolon] at hlexemes
  rw [hlexemes]
  exact (readsBack e he).reads.whole (Nat.zero_le _) (Nat.zero_le _)
    (stops_cons (by decide) (by simp [Operator.ofLexeme?]) [])

/-! ### Texts on one line -/

/-- The text stays on its line and does not start with a space. -/
structure Inline (text : List Char) : Prop where
  head : ∃ c ∈ text.head?, c ≠ ' '
  line : '\n' ∉ text

theorem Inline.append {text rest : List Char} (h : Inline text) (hrest : '\n' ∉ rest) :
    Inline (text ++ rest) := by
  obtain ⟨c, hc, hne⟩ := h.head
  refine ⟨⟨c, ?_, hne⟩, ?_⟩
  · rw [List.head?_append, Option.mem_def.mp hc]
    rfl
  · rw [List.mem_append, not_or]
    exact ⟨h.line, hrest⟩

theorem Inline.cons {c : Char} {rest : List Char} (hc : c ≠ ' ' ∧ c ≠ '\n') (hrest : '\n' ∉ rest) :
    Inline (c :: rest) := by
  refine ⟨⟨c, rfl, hc.1⟩, ?_⟩
  rw [List.mem_cons, not_or]
  exact ⟨hc.2.symm, hrest⟩

theorem Inline.wrap {e : Expr} (h : Inline e.text.toList) (least : Nat) :
    Inline (Target.wrap least e e.text).toList := by
  unfold Target.wrap
  split
  · have htext : ("(" ++ e.text ++ ")").toList = '(' :: (e.text.toList ++ [')']) := by simp
    rw [htext]
    refine .cons (by decide) ?_
    rw [List.mem_append, not_or]
    exact ⟨h.line, by decide⟩
  · exact h

/-- A character that identifiers do not contain, whatever counts as a letter beyond ASCII. -/
def Outside (d : Char) : Prop :=
  d.toNat < 128 ∧ (d.isAlphanum || d == '_' || d == '$' || isIgnorable d) = false

instance (d : Char) : Decidable (Outside d) := inferInstanceAs (Decidable (_ ∧ _))

theorem ne_of_part {c d : Char} (hc : L.part c = true) (hd : Outside d) : c ≠ d := by
  intro heq
  subst heq
  rw [L.ascii_part c hd.1, hd.2] at hc
  cases hc

theorem inline_identifier {word : List Char} (h : L.Identifier word) : Inline word := by
  obtain ⟨c, cs, rfl, hc⟩ := h.start
  have hpart := h.part
  refine ⟨⟨c, rfl, ne_of_start hc (by decide) (by decide)⟩, ?_⟩
  intro hmem
  exact ne_of_part (hpart '\n' hmem) (by decide) rfl

/-- A dotted name consists of points and the characters of identifiers. -/
theorem part_of_mem_dotted {n : String} (h : L.Dotted n) {c : Char} (hc : c ∈ n.toList) :
    c = '.' ∨ L.part c = true := by
  have htext : ['.'].intercalate (n.toList.splitOn '.') = n.toList := List.intercalate_splitOn '.'
  have hwords : ∀ word ∈ n.toList.splitOn '.', ∀ c ∈ word, L.part c = true :=
    fun word hword => (h word hword).part
  generalize n.toList.splitOn '.' = words at htext hwords
  cases words with
  | nil =>
    rw [← htext] at hc
    cases hc
  | cons word words =>
    rw [← htext, intercalate_cons_flatMap, List.mem_append] at hc
    cases hc with
    | inl hfirst => exact .inr (hwords word List.mem_cons_self c hfirst)
    | inr hmore =>
      obtain ⟨word', hword', hc⟩ := List.mem_flatMap.mp hmore
      cases List.mem_cons.mp hc with
      | inl hdot => exact .inl hdot
      | inr hin => exact .inr (hwords word' (List.mem_cons_of_mem _ hword') c hin)

theorem inline_dotted {n : String} (h : L.Dotted n) : Inline n.toList := by
  have hmem : ∀ c ∈ n.toList, c ≠ ' ' ∧ c ≠ '\n' := by
    intro c hc
    cases part_of_mem_dotted h hc with
    | inl hdot =>
      subst hdot
      decide
    | inr hpart => exact ⟨ne_of_part hpart (by decide), ne_of_part hpart (by decide)⟩
  have hne : n.toList ≠ [] := by
    intro hnil
    have hword := h [] (by rw [hnil]; decide)
    obtain ⟨c, cs, hword, -⟩ := hword.start
    cases hword
  obtain ⟨c, cs, hcs⟩ := List.exists_cons_of_ne_nil hne
  rw [hcs] at hmem ⊢
  exact ⟨⟨c, rfl, (hmem c List.mem_cons_self).1⟩, fun hc => (hmem '\n' hc).2 rfl⟩

theorem not_mem_of_runs {cs : List Char} {prev d : Char} (hd : ∀ c, numberGoesOn c d = false)
    (h : Runs prev cs) : d ∉ cs := by
  induction cs generalizing prev with
  | nil => exact List.not_mem_nil
  | cons c cs ih =>
    have hc : c ≠ d := by
      rintro rfl
      have hgoes := h.1
      rw [hd] at hgoes
      cases hgoes
    rw [List.mem_cons, not_or]
    exact ⟨hc.symm, ih h.2⟩

theorem inline_number {cs : List Char} (h : NumberText cs) (negative : Prop) [Decidable negative] :
    Inline (if negative then '-' :: cs else cs) := by
  obtain ⟨c, tail, rfl, hdigit, hruns⟩ := h
  have hne : c ≠ ' ' ∧ c ≠ '\n' := by
    constructor <;> intro heq <;> rw [heq] at hdigit <;> cases hdigit
  have hinline : Inline (c :: tail) := .cons hne (not_mem_of_runs (by simp [numberGoesOn]) hruns)
  split
  · exact .cons (by decide) hinline.line
  · exact hinline

theorem newline_not_mem_escapeChars (s : List Char) : '\n' ∉ escapeChars s := by
  intro hmem
  exact absurd (isControl_escapeChars _ hmem) (by decide)

theorem inline_quote (s : String) : Inline (quote s).toList := by
  have htext : (quote s).toList = '"' :: (escapeChars s.toList ++ ['"']) := by simp [quote, escape]
  rw [htext]
  refine .cons (by decide) ?_
  rw [List.mem_append, not_or]
  exact ⟨newline_not_mem_escapeChars s.toList, by decide⟩

theorem newline_not_mem_commaSeparated {texts : List String} (h : ∀ t ∈ texts, '\n' ∉ t.toList) :
    '\n' ∉ (commaSeparated texts).toList := by
  induction texts with
  | nil => exact List.not_mem_nil
  | cons t texts ih =>
    have htail := ih fun t' ht' => h t' (List.mem_cons_of_mem _ ht')
    have hfirst := h t List.mem_cons_self
    cases texts with
    | nil => simpa [commaSeparated] using hfirst
    | cons t' texts =>
      rw [toList_commaSeparated_cons]
      simp [hfirst, htail]

theorem inline_call {n : String} (hn : L.Identifier n.toList) {texts : List String}
    (h : ∀ t ∈ texts, '\n' ∉ t.toList) : Inline (n ++ "(" ++ commaSeparated texts ++ ")").toList := by
  have htext : (n ++ "(" ++ commaSeparated texts ++ ")").toList =
      n.toList ++ ('(' :: ((commaSeparated texts).toList ++ [')'])) := by simp
  rw [htext]
  apply (inline_identifier hn).append
  simp [newline_not_mem_commaSeparated h]

mutual

theorem inline_text (e : Expr) (he : e.Readable L) : Inline e.text.toList := by
  match e with
  | .int v =>
    rw [toList_text_int]
    exact inline_number (numberText_intDigits v) _
  | .double x =>
    rw [toList_text_double he]
    exact inline_number (numberText_magnitude x) _
  | .string s => exact inline_quote s
  | .this => exact .cons (by decide) (by decide)
  | .name n => exact inline_dotted he
  | .field scope n =>
    have hscope := (inline_text scope he.2.1).wrap Precedence.primary
    have hn := inline_identifier he.2.2
    rw [Expr.text, String.toList_append, String.toList_append, List.append_assoc]
    apply hscope.append
    simpa using hn.line
  | .assign target value =>
    have htarget := (inline_text target he.1).wrap Precedence.primary
    have hvalue := (inline_text value he.2).wrap Precedence.assignment
    rw [Expr.text, String.toList_append, String.toList_append, List.append_assoc]
    apply htarget.append
    simpa using hvalue.line
  | .binary op left right =>
    have hleft := (inline_text left he.1).wrap op.precedence
    have hright := (inline_text right he.2).wrap (op.precedence + 1)
    have hop : '\n' ∉ op.text.toList := by cases op <;> decide
    simp only [Expr.text, String.toList_append, List.append_assoc]
    apply hleft.append
    simp [hop, hright.line]
  | .increment e =>
    have hoperand := (inline_text e he).wrap Precedence.primary
    rw [Expr.text, String.toList_append]
    exact hoperand.append (by decide)
  | .call none n args => exact inline_call he.1 (newline_not_mem_texts args he.2)
  | .call (some scope) n args =>
    have hscope := (inline_text scope he.2.1).wrap Precedence.primary
    have hcall := inline_call he.2.2.1 (newline_not_mem_texts args he.2.2.2)
    have htext : (Expr.call (some scope) n args).text.toList =
        (wrap Precedence.primary scope scope.text).toList ++
          '.' :: (n ++ "(" ++ commaSeparated (Expr.texts args) ++ ")").toList := by
      simp [Expr.text]
    rw [htext]
    apply hscope.append
    rw [List.mem_cons, not_or]
    exact ⟨by decide, hcall.line⟩

theorem newline_not_mem_texts (es : List Expr) (hes : Expr.AllReadable L es) :
    ∀ t ∈ Expr.texts es, '\n' ∉ t.toList := by
  match es with
  | [] => exact nofun
  | e :: es =>
    rw [Expr.texts, List.forall_mem_cons]
    exact ⟨(inline_text e hes.1).line, newline_not_mem_texts es hes.2⟩

end

end

end RpgLowering.Target
