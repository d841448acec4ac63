import RpgLowering.Proofs.ExpressionText

/-! Texts that can be told apart: where a text is cut in one way only, and how modifiers, types and
names are found again in front of something else. -/
namespace RpgLowering.Target
open Text

/-! ### Cutting texts -/

/-- A list falls in one way into items of a kind and a rest that starts with another kind. -/
theorem cut_inj {α : Type} {p : α → Bool} {a b r s : List α} (ha : ∀ c ∈ a, p c = true)
    (hb : ∀ c ∈ b, p c = true) (hr : ∀ c ∈ r.head?, p c = false) (hs : ∀ c ∈ s.head?, p c = false)
    (h : a ++ r = b ++ s) : a = b ∧ r = s := by
  have htake : ∀ {x y : List α}, (∀ c ∈ x, p c = true) → (∀ c ∈ y.head?, p c = false) →
      (x ++ y).takeWhile p = x := by
    intro x y hx hy
    rw [List.takeWhile_append_of_pos hx]
    cases y with
    | nil => simp
    | cons c y => simp [hy c rfl]
  have hab : a = b := by
    rw [← htake ha hr, h, htake hb hs]
  subst hab
  exact ⟨rfl, List.append_cancel_left h⟩

theorem bne_of_not_mem {d : Char} {a : List Char} (h : d ∉ a) : ∀ c ∈ a, (c != d) = true := by
  intro c hc
  rw [bne_iff_ne]
  intro heq
  exact h (heq ▸ hc)

theorem cut_at {d : Char} {a b r s : List Char} (ha : d ∉ a) (hb : d ∉ b)
    (h : a ++ d :: r = b ++ d :: s) : a = b ∧ r = s := by
  obtain ⟨hab, hrs⟩ := cut_inj (bne_of_not_mem ha) (bne_of_not_mem hb) (by simp) (by simp) h
  exact ⟨hab, (List.cons.inj hrs).2⟩

theorem split_word {w : List Char} (hw : ' ' ∉ w) (rest : List Char) :
    (w ++ ' ' :: rest).takeWhile (· != ' ') = w ∧
      (w ++ ' ' :: rest).dropWhile (· != ' ') = ' ' :: rest := by
  have hchars := bne_of_not_mem hw
  rw [List.takeWhile_append_of_pos hchars, List.dropWhile_append_of_pos hchars]
  simp

theorem first_word {v w : String} {r s : List Char} (hv : ' ' ∉ v.toList) (hw : ' ' ∉ w.toList)
    (h : v.toList ++ ' ' :: r = w.toList ++ ' ' :: s) : v = w ∧ r = s := by
  obtain ⟨hvw, hrs⟩ := cut_at hv hw h
  exact ⟨String.toList_inj.mp hvw, hrs⟩

theorem eq_of_map_eq {α β : Type} {P : α → Prop} {f : α → β}
    (hf : ∀ a b, P a → P b → f a = f b → a = b) {l l' : List α} (hl : ∀ a ∈ l, P a)
    (hl' : ∀ a ∈ l', P a) (h : l.map f = l'.map f) : l = l' := by
  induction l generalizing l' with
  | nil => exact (List.map_eq_nil_iff.mp h.symm).symm
  | cons a l ih =>
    cases l' with
    | nil => cases h
    | cons b l' =>
      obtain ⟨hab, htail⟩ := List.cons.inj h
      have ha := hl a List.mem_cons_self
      have hb := hl' b List.mem_cons_self
      rw [hf a b ha hb hab, ih (fun x hx => hl x (List.mem_cons_of_mem _ hx))
        (fun x hx => hl' x (List.mem_cons_of_mem _ hx)) htail]

/-- Texts can be told apart by an end mark that none of them contains. -/
theorem terminated_inj {d : Char} {tail : List Char} {xs ys : List (List Char)}
    (hx : ∀ x ∈ xs, d ∉ x) (hy : ∀ y ∈ ys, d ∉ y)
    (h : xs.flatMap (· ++ d :: tail) = ys.flatMap (· ++ d :: tail)) : xs = ys := by
  induction xs generalizing ys with
  | nil =>
    cases ys with
    | nil => rfl
    | cons y ys => simp at h
  | cons x xs ih =>
    cases ys with
    | nil => simp at h
    | cons y ys =>
      rw [List.flatMap_cons, List.flatMap_cons, List.append_assoc, List.append_assoc,
        List.cons_append, List.cons_append] at h
      obtain ⟨hxy, hrest⟩ := cut_at (hx x List.mem_cons_self) (hy y List.mem_cons_self) h
      rw [hxy, ih (fun z hz => hx z (List.mem_cons_of_mem _ hz))
        (fun z hz => hy z (List.mem_cons_of_mem _ hz)) (List.append_cancel_left hrest)]

theorem commaSeparated_terminated (t : String) (ts : List String) :
    (commaSeparated (t :: ts)).toList ++ [',', ' '] =
      ((t :: ts).map String.toList).flatMap (· ++ ',' :: [' ']) := by
  induction ts generalizing t with
  | nil => simp [commaSeparated]
  | cons t' ts ih =>
    rw [toList_commaSeparated_cons, List.map_cons, List.flatMap_cons, ← ih t']
    simp

theorem commaSeparated_ne_empty {t : String} (ht : t ≠ "") (ts : List String) :
    commaSeparated (t :: ts) ≠ "" := by
  cases ts with
  | nil => exact ht
  | cons t' ts =>
    intro h
    have hnil := congrArg String.toList h
    rw [toList_commaSeparated_cons] at hnil
    simp at hnil

/-- Texts without commas can be told apart in a list with commas. -/
theorem commaSeparated_inj {ts ts' : List String} (h : ∀ t ∈ ts, ',' ∉ t.toList ∧ t ≠ "")
    (h' : ∀ t ∈ ts', ',' ∉ t.toList ∧ t ≠ "") (heq : commaSeparated ts = commaSeparated ts') :
    ts = ts' := by
  have hcommas : ∀ {ts : List String}, (∀ t ∈ ts, ',' ∉ t.toList ∧ t ≠ "") →
      ∀ cs ∈ ts.map String.toList, ',' ∉ cs := by
    intro ts h cs hcs
    obtain ⟨t, ht, rfl⟩ := List.mem_map.mp hcs
    exact (h t ht).1
  cases ts with
  | nil =>
    cases ts' with
    | nil => rfl
    | cons t' ts' =>
      exact absurd heq.symm (commaSeparated_ne_empty (h' t' List.mem_cons_self).2 ts')
  | cons t ts =>
    cases ts' with
    | nil => exact absurd heq (commaSeparated_ne_empty (h t List.mem_cons_self).2 ts)
    | cons t' ts' =>
      have hmarked := commaSeparated_terminated t ts
      rw [heq, commaSeparated_terminated t' ts'] at hmarked
      have hlists := terminated_inj (hcommas h') (hcommas h) hmarked
      exact ((List.map_inj_right fun _ _ hab => String.toList_inj.mp hab).mp hlists).symm

/-! ### Modifiers, types and names -/

section
variable (L : Letters)

/-- A class type is a dotted name. -/
def Ty.Readable : Ty → Prop
  | .named n => L.Dotted n
  | _ => True

def Parameter.Readable (p : Parameter) : Prop := p.ty.Readable L ∧ L.Identifier p.name.toList

end

section
variable {L : Letters}

theorem not_mem_identifier {word : List Char} (h : L.Identifier word) {d : Char} (hd : Outside d) :
    d ∉ word := by
  intro hmem
  exact ne_of_part (h.part d hmem) hd rfl

/-- A dotted name is no reserved word: one that has no point is an identifier. -/
theorem not_reserved_of_dotted {n : String} (h : L.Dotted n) : n ∉ reservedWords := by
  have hsingle : reservedWords.all fun w => w.toList.splitOn '.' == [w.toList] := by decide +kernel
  intro hmem
  have hsplit : n.toList.splitOn '.' = [n.toList] := by
    simpa using List.all_eq_true.mp hsingle n hmem
  have hword := h n.toList (by rw [hsplit]; exact List.mem_singleton.mpr rfl)
  apply hword.free
  rw [String.ofList_toList]
  exact hmem

theorem not_mem_tyText {t : Ty} (ht : t.Readable L) {d : Char} (hd : Outside d) (hdot : d ≠ '.') :
    d ∉ t.text.toList := by
  intro hmem
  cases t with
  | named n =>
    cases part_of_mem_dotted ht hmem with
    | inl heq => exact hdot heq
    | inr hpart => exact ne_of_part hpart hd rfl
  | _ =>
    have hletter : d.isAlphanum = true := by
      refine List.all_eq_true.mp ?_ d hmem
      decide
    have hno := hd.2
    rw [hletter] at hno
    cases hno

def primitiveTypes : List Ty := [.long, .double, .boolean, .void]

/-- A reserved word is the text of a type only if the type is primitive. -/
theorem mem_primitiveTypes {t : Ty} (ht : t.Readable L) (h : t.text ∈ reservedWords) :
    t ∈ primitiveTypes := by
  cases t with
  | named n => exact absurd h (not_reserved_of_dotted ht)
  | _ => decide

theorem eq_of_tyText {t t' : Ty} (ht : t.Readable L) (ht' : t'.Readable L) (h : t.text = t'.text) :
    t = t' := by
  have hprimitive : ∀ t ∈ primitiveTypes, t.text ∈ reservedWords ∧
      ∀ t' ∈ primitiveTypes, t.text = t'.text → t = t' := by decide
  by_cases hword : t.text ∈ reservedWords
  · have hmem := mem_primitiveTypes ht hword
    rw [h] at hword
    exact (hprimitive t hmem).2 t' (mem_primitiveTypes ht' hword) h
  · have hnamed : ∀ t : Ty, t.text ∉ reservedWords → t = .named t.text := by
      intro t hno
      cases t with
      | named n => rfl
      | _ => exact absurd (by decide) hno
    rw [hnamed t hword, hnamed t' (h ▸ hword), h]

/-- A word behind modifiers that is none itself. -/
structure EndsModifiers (w : String) : Prop where
  space : ' ' ∉ w.toList
  modifier : ∀ m : Modifier, w ≠ m.text

theorem reserved_modifier (m : Modifier) : m.text ∈ reservedWords := by cases m <;> decide

theorem space_not_mem_modifier (m : Modifier) : ' ' ∉ m.text.toList := by cases m <;> decide

theorem endsModifiers_class : EndsModifiers "class" :=
  ⟨by decide, fun m => by cases m <;> decide⟩

theorem endsModifiers_ty {t : Ty} (ht : t.Readable L) : EndsModifiers t.text := by
  refine ⟨not_mem_tyText ht (by decide) (by decide), ?_⟩
  intro m heq
  have hword := reserved_modifier m
  rw [← heq] at hword
  have hno : ∀ t ∈ primitiveTypes, ∀ m : Modifier, t.text ≠ m.text := by
    intro t ht m
    revert t
    cases m <;> decide
  exact hno t (mem_primitiveTypes ht hword) m heq

theorem tyText_ne_class {t : Ty} (ht : t.Readable L) : t.text ≠ "class" := by
  intro heq
  have hno : ∀ t ∈ primitiveTypes, t.text ≠ "class" := by decide
  exact hno t (mem_primitiveTypes ht (by rw [heq]; decide)) heq

theorem toList_modifiersText_cons (m : Modifier) (ms : List Modifier) :
    (modifiersText (m :: ms)).toList = m.text.toList ++ ' ' :: (modifiersText ms).toList := by
  simp [modifiersText]

/-- The modifiers in front of a word can be told apart, and from the word. -/
theorem modifiers_inj {ms ms' : List Modifier} {w w' : String} {rest rest' : List Char}
    (hw : EndsModifiers w) (hw' : EndsModifiers w')
    (h : (modifiersText ms).toList ++ (w.toList ++ ' ' :: rest) =
      (modifiersText ms').toList ++ (w'.toList ++ ' ' :: rest')) :
    ms = ms' ∧ w = w' ∧ rest = rest' := by
  induction ms generalizing ms' with
  | nil =>
    cases ms' with
    | nil => exact ⟨rfl, first_word hw.space hw'.space h⟩
    | cons m' ms' =>
      rw [toList_modifiersText_cons, List.append_assoc, List.cons_append] at h
      exact absurd (first_word hw.space (space_not_mem_modifier m') h).1 (hw.modifier m')
  | cons m ms ih =>
    rw [toList_modifiersText_cons, List.append_assoc, List.cons_append] at h
    cases ms' with
    | nil =>
      exact absurd (first_word (space_not_mem_modifier m) hw'.space h).1.symm (hw'.modifier m)
    | cons m' ms' =>
      rw [toList_modifiersText_cons, List.append_assoc, List.cons_append] at h
      obtain ⟨hm, hrest⟩ := first_word (space_not_mem_modifier m) (space_not_mem_modifier m') h
      have hinj : ∀ m m' : Modifier, m.text = m'.text → m = m' := by
        intro m m'
        cases m <;> cases m' <;> decide
      obtain ⟨hms, hword⟩ := ih hrest
      exact ⟨by rw [hinj m m' hm, hms], hword⟩

theorem eq_of_parameterText {p p' : Parameter} (hp : p.Readable L) (hp' : p'.Readable L)
    (h : p.text = p'.text) : p = p' := by
  have htext : ∀ p : Parameter, p.text.toList = p.ty.text.toList ++ ' ' :: p.name.toList := by
    intro p
    simp [Parameter.text]
  have hwords := congrArg String.toList h
  rw [htext, htext] at hwords
  obtain ⟨hty, hname⟩ :=
    first_word (endsModifiers_ty hp.1).space (endsModifiers_ty hp'.1).space hwords
  have hty := eq_of_tyText hp.1 hp'.1 hty
  have hname := String.toList_inj.mp hname
  cases p
  cases p'
  simp_all

theorem eq_of_parametersText {ps ps' : List Parameter} (hps : ∀ p ∈ ps, p.Readable L)
    (hps' : ∀ p ∈ ps', p.Readable L)
    (h : commaSeparated (ps.map Parameter.text) = commaSeparated (ps'.map Parameter.text)) :
    ps = ps' := by
  have htexts : ∀ {ps : List Parameter}, (∀ p ∈ ps, p.Readable L) →
      ∀ t ∈ ps.map Parameter.text, ',' ∉ t.toList ∧ t ≠ "" := by
    intro ps hps t ht
    obtain ⟨p, hp, rfl⟩ := List.mem_map.mp ht
    have hcomma : Outside ',' := by decide
    have hty := not_mem_tyText (hps p hp).1 hcomma (by decide)
    have hname := not_mem_identifier (hps p hp).2 hcomma
    refine ⟨by simp [Parameter.text, hty, hname], fun hempty => ?_⟩
    have hnil := congrArg String.toList hempty
    simp [Parameter.text] at hnil
  exact eq_of_map_eq (fun p p' => eq_of_parameterText) hps hps'
    (commaSeparated_inj (htexts hps) (htexts hps') h)

end

end RpgLowering.Target
