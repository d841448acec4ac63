import RpgLowering.Command.ClassName
import Mathlib.Logic.Basic

/-! Class names that come from file names. A case mapping can give one character several, or take a
character from outside ASCII into it. Of all that, an identifier shows only what the tables say. -/
namespace RpgLowering

namespace Text

def Ascii (l : List Char) : Prop := ∀ c ∈ l, c.toNat < 128

/-- A form of every character: by the rule within ASCII, by the table if the character stands there,
and for any other character with something outside ASCII in it. -/
structure FormOf (table : List (Char × List Char)) (rule : Char → Char)
    (form : Char → List Char) : Prop where
  ascii : ∀ c, c.toNat < 128 → form c = [rule c]
  special : ∀ x ∈ table, form x.1 = x.2
  other : ∀ c, ¬ c.toNat < 128 → c ∉ table.map Prod.fst → ¬ Ascii (form c)

/-- A full case mapping, character by character. -/
structure CaseMapping where
  upper : Char → List Char
  lower : Char → List Char
  formOf_upper : FormOf specialUpper Char.toUpper upper
  formOf_lower : FormOf specialLower Char.toLower lower

def CaseMapping.capitalize (m : CaseMapping) : List Char → List Char
  | [] => []
  | c :: cs => m.upper c ++ cs.flatMap m.lower

variable {table : List (Char × List Char)} {rule : Char → Char} {form form' : Char → List Char}

theorem formOf_lookup
    (htable : table.all (fun x => 128 ≤ x.1.toNat && table.lookup x.1 == some x.2) = true)
    (hrule : ∀ c : Char, ¬ c.toNat < 128 → rule c = c) :
    FormOf table rule fun c => (table.lookup c).getD [rule c] := by
  simp only [List.all_eq_true, Bool.and_eq_true, decide_eq_true_eq, beq_iff_eq] at htable
  have hrest : ∀ c, c ∉ table.map Prod.fst → (table.lookup c).getD [rule c] = [rule c] := by
    intro c hc
    have hnone : table.lookup c = none := by
      rw [List.lookup_eq_none_iff]
      intro x hx
      simp only [bne_iff_ne]
      rintro rfl
      exact hc (List.mem_map_of_mem hx)
    rw [hnone, Option.getD_none]
  constructor
  · intro c hc
    refine hrest c fun hmem => ?_
    obtain ⟨x, hx, rfl⟩ := List.mem_map.mp hmem
    exact Nat.not_lt.mpr (htable x hx).1 hc
  · intro x hx
    rw [(htable x hx).2, Option.getD_some]
  · intro c hc hmem hascii
    rw [hrest c hmem, hrule c hc] at hascii
    exact hc (hascii c List.mem_cons_self)

theorem toUpper_of_not_ascii (c : Char) (h : ¬ c.toNat < 128) : c.toUpper = c := by
  refine dif_neg fun hc => h ?_
  have hle : c.toNat ≤ 122 := hc.2
  omega

theorem toLower_of_not_ascii (c : Char) (h : ¬ c.toNat < 128) : c.toLower = c := by
  refine dif_neg fun hc => h ?_
  have hle : c.toNat ≤ 90 := hc.2
  omega

theorem formOf_upper : FormOf specialUpper Char.toUpper upper :=
  formOf_lookup (by decide) toUpper_of_not_ascii

theorem formOf_lower : FormOf specialLower Char.toLower lower :=
  formOf_lookup (by decide) toLower_of_not_ascii

/-- The mapping that leaves every character as it is whose forms are not within ASCII. -/
def CaseMapping.tables : CaseMapping :=
  ⟨Text.upper, Text.lower, Text.formOf_upper, Text.formOf_lower⟩

/-- If the form is within ASCII, it is known. -/
theorem FormOf.cases_of_ascii (h : FormOf table rule form) {c : Char} (hc : Ascii (form c)) :
    c.toNat < 128 ∧ form c = [rule c] ∨ ∃ x ∈ table, form c = x.2 := by
  by_cases hlt : c.toNat < 128
  · exact .inl ⟨hlt, h.ascii c hlt⟩
  · by_cases hmem : c ∈ table.map Prod.fst
    · obtain ⟨x, hx, rfl⟩ := List.mem_map.mp hmem
      exact .inr ⟨x, hx, h.special x hx⟩
    · exact absurd hc (h.other c hlt hmem)

/-! ### Mappings that differ outside ASCII only -/

/-- Two texts that are the same unless both leave ASCII. -/
def SameWithinAscii (x y : List Char) : Prop := x = y ∨ ¬ Ascii x ∧ ¬ Ascii y

theorem SameWithinAscii.eq {x y : List Char} (h : SameWithinAscii x y) (hy : Ascii y) : x = y :=
  h.resolve_right fun hne => hne.2 hy

theorem SameWithinAscii.append {x y x' y' : List Char} (h : SameWithinAscii x y)
    (h' : SameWithinAscii x' y') : SameWithinAscii (x ++ x') (y ++ y') := by
  simp only [SameWithinAscii, Ascii, List.forall_mem_append, not_and_or] at *
  rcases h with rfl | hne
  · rcases h' with rfl | hne'
    · exact .inl rfl
    · exact .inr ⟨.inr hne'.1, .inr hne'.2⟩
  · exact .inr ⟨.inl hne.1, .inl hne.2⟩

theorem FormOf.agree (h : FormOf table rule form) (h' : FormOf table rule form') (c : Char) :
    SameWithinAscii (form c) (form' c) := by
  by_cases hlt : c.toNat < 128
  · exact .inl ((h.ascii c hlt).trans (h'.ascii c hlt).symm)
  · by_cases hmem : c ∈ table.map Prod.fst
    · obtain ⟨x, hx, rfl⟩ := List.mem_map.mp hmem
      exact .inl ((h.special x hx).trans (h'.special x hx).symm)
    · exact .inr ⟨h.other c hlt hmem, h'.other c hlt hmem⟩

theorem FormOf.agree_flatMap (h : FormOf table rule form) (h' : FormOf table rule form')
    (cs : List Char) : SameWithinAscii (cs.flatMap form) (cs.flatMap form') := by
  induction cs with
  | nil => exact .inl rfl
  | cons c cs ih =>
    rw [List.flatMap_cons, List.flatMap_cons]
    exact (h.agree h' c).append ih

theorem CaseMapping.agree_capitalize (m : CaseMapping) (cs : List Char) :
    SameWithinAscii (m.capitalize cs) (Text.capitalize cs) := by
  cases cs with
  | nil => exact .inl rfl
  | cons c cs =>
    exact (m.formOf_upper.agree Text.formOf_upper c).append
      (m.formOf_lower.agree_flatMap Text.formOf_lower cs)

/-! ### Forms within ASCII -/

theorem forall_ascii {P : Char → Prop} (h : ∀ n < 128, P (Char.ofNat n)) {c : Char}
    (hc : c.toNat < 128) : P c := by
  have hn := h c.toNat hc
  rwa [Char.ofNat_toNat] at hn

/-- The upper-case form of one character: one that is not lower case, and then, if there is more,
capitals. -/
theorem FormOf.capitals (hform : FormOf specialUpper Char.toUpper form) {c : Char}
    (h : Ascii (form c)) :
    ∃ d ds, form c = d :: ds ∧ d.isLower = false ∧ ∀ e ∈ ds, e.isUpper = true := by
  rcases hform.cases_of_ascii h with ⟨hc, heq⟩ | ⟨x, hx, heq⟩
  · refine ⟨c.toUpper, [], heq, ?_, by simp⟩
    exact forall_ascii (P := fun c => c.toUpper.isLower = false) (by decide) hc
  · have htable : specialUpper.all (fun x =>
        x.2.head?.any (!·.isLower) && x.2.tail.all Char.isUpper) = true := by decide
    have hentry := List.all_eq_true.mp htable x hx
    rw [← heq, Bool.and_eq_true] at hentry
    cases hcons : form c with
    | nil => simp [hcons] at hentry
    | cons d ds =>
      simp only [hcons, List.head?_cons, Option.any_some, Bool.not_eq_true', List.tail_cons,
        List.all_eq_true] at hentry
      exact ⟨d, ds, rfl, hentry⟩

theorem FormOf.no_capital (hform : FormOf specialLower Char.toLower form) {c d : Char}
    (h : Ascii (form c)) (hd : d ∈ form c) : d.isUpper = false := by
  rcases hform.cases_of_ascii h with ⟨hc, heq⟩ | ⟨x, hx, heq⟩
  · rw [heq, List.mem_singleton] at hd
    subst hd
    exact forall_ascii (P := fun c => c.toLower.isUpper = false) (by decide) hc
  · have htable : specialLower.all (fun x => x.2.all (!·.isUpper)) = true := by decide
    have hentry := List.all_eq_true.mp htable x hx
    rw [← heq] at hentry
    simpa using List.all_eq_true.mp hentry d hd

/-- The capitals behind the front of a capitalized text come from the first character alone. -/
theorem CaseMapping.capitalize_parts (m : CaseMapping) {cs : List Char}
    (h : Ascii (m.capitalize cs)) (hne : m.capitalize cs ≠ []) :
    ∃ c d tail, cs.head? = some c ∧ m.capitalize cs = d :: tail ∧ d.isLower = false ∧
      ((∀ e ∈ tail, e.isUpper = false) ↔ (m.upper c).length = 1) := by
  cases cs with
  | nil => exact absurd rfl hne
  | cons c cs =>
    obtain ⟨hfirst, hrest⟩ := List.forall_mem_append.mp h
    obtain ⟨d, ds, hupper, hd, hds⟩ := m.formOf_upper.capitals hfirst
    have hlower : ∀ e ∈ cs.flatMap m.lower, e.isUpper = false := by
      intro e he
      obtain ⟨x, hx, hex⟩ := List.mem_flatMap.mp he
      have hascii : Ascii (m.lower x) := fun y hy => hrest y (List.mem_flatMap.mpr ⟨x, hx, hy⟩)
      exact m.formOf_lower.no_capital hascii hex
    have hcons : m.capitalize (c :: cs) = d :: (ds ++ cs.flatMap m.lower) := by
      rw [CaseMapping.capitalize, hupper, List.cons_append]
    refine ⟨c, d, ds ++ cs.flatMap m.lower, rfl, hcons, hd, ?_⟩
    rw [hupper, List.length_cons, Nat.add_eq_right, List.length_eq_zero_iff,
      List.forall_mem_append]
    constructor
    · intro hnone
      refine List.eq_nil_iff_forall_not_mem.mpr fun e he => ?_
      have hcapital := hds e he
      rw [hnone.1 e he] at hcapital
      cases hcapital
    · rintro rfl
      exact ⟨by simp, hlower⟩

theorem upper_of_not_isLower {c : Char} (hc : c.toNat < 128) (h : c.isLower = false) :
    upper c = [c] := by
  rw [formOf_upper.ascii c hc]
  exact forall_ascii (P := fun c => c.isLower = false → [c.toUpper] = [c]) (by decide) hc h

theorem lower_eq_self_iff {c : Char} (hc : c.toNat < 128) : lower c = [c] ↔ c.isUpper = false := by
  rw [formOf_lower.ascii c hc]
  exact forall_ascii (P := fun c => [c.toLower] = [c] ↔ c.isUpper = false) (by decide) hc

theorem flatMap_lower_eq_self_iff {cs : List Char} (h : Ascii cs) :
    cs.flatMap lower = cs ↔ ∀ c ∈ cs, c.isUpper = false := by
  induction cs with
  | nil => simp
  | cons c cs ih =>
    obtain ⟨hc, hcs⟩ := List.forall_mem_cons.mp h
    rw [List.forall_mem_cons, ← ih hcs, ← lower_eq_self_iff hc, List.flatMap_cons,
      formOf_lower.ascii c hc, List.singleton_append, List.cons.injEq, List.cons.injEq]
    simp

/-- A text with a capital in front changes by capitalizing exactly if there is another capital. -/
theorem capitalize_eq_self_iff {c : Char} {cs : List Char} (h : Ascii (c :: cs))
    (hc : c.isLower = false) :
    capitalize (c :: cs) = c :: cs ↔ ∀ d ∈ cs, d.isUpper = false := by
  obtain ⟨hascii, hcs⟩ := List.forall_mem_cons.mp h
  rw [capitalize, upper_of_not_isLower hascii hc, List.singleton_append, List.cons.injEq,
    flatMap_lower_eq_self_iff hcs]
  simp

end Text

namespace Command
open Text (Ascii CaseMapping)

/-! ### Identifiers -/

theorem isNamePart_of_isNameStart {c : Char} (h : isNameStart c = true) : isNamePart c = true := by
  have halpha : c.isAlpha = true → c.isAlphanum = true :=
    fun hc => (Bool.or_eq_true ..).mpr (.inl hc)
  simp only [isNameStart, isNamePart, Bool.or_eq_true] at *
  exact h.imp_left (Or.imp_left halpha)

theorem ascii_of_isAlphanum {c : Char} (h : c.isAlphanum = true) : c.toNat < 128 := by
  have hlt : ∀ d : Char, c.val ≤ d.val → d.toNat < 128 → c.toNat < 128 :=
    fun d hle => Nat.lt_of_le_of_lt hle
  rcases (Bool.or_eq_true ..).mp h with hletter | hdigit
  · rcases (Bool.or_eq_true ..).mp hletter with hupper | hlower
    · exact hlt 'Z' (of_decide_eq_true hupper).2 (by decide)
    · exact hlt 'z' (of_decide_eq_true ((Bool.and_eq_true ..).mp hlower).2) (by decide)
  · exact hlt '9' (Char.isDigit_iff_toNat.mp hdigit).2 (by decide)

theorem ascii_of_isNamePart {c : Char} (h : isNamePart c = true) : c.toNat < 128 := by
  simp only [isNamePart, Bool.or_eq_true, beq_iff_eq] at h
  rcases h with (hword | rfl) | rfl
  · exact ascii_of_isAlphanum hword
  · decide
  · decide

theorem isIdentifierChars_iff {cs : List Char} : isIdentifierChars cs = true ↔
    ∃ c rest, cs = c :: rest ∧ isNameStart c = true ∧ ∀ d ∈ rest, isNamePart d = true := by
  cases cs with
  | nil => simp [isIdentifierChars]
  | cons c rest =>
    simp only [isIdentifierChars, Bool.and_eq_true, List.all_eq_true]
    constructor
    · intro h
      exact ⟨c, rest, rfl, h⟩
    · rintro ⟨_, _, ⟨⟩, h⟩
      exact h

theorem isNamePart_of_isIdentifierChars {cs : List Char} (h : isIdentifierChars cs = true) :
    ∀ c ∈ cs, isNamePart c = true := by
  obtain ⟨c, rest, rfl, hc, hrest⟩ := isIdentifierChars_iff.mp h
  exact List.forall_mem_cons.mpr ⟨isNamePart_of_isNameStart hc, hrest⟩

theorem ascii_of_isIdentifierChars {cs : List Char} (h : isIdentifierChars cs = true) : Ascii cs :=
  fun c hc => ascii_of_isNamePart (isNamePart_of_isIdentifierChars h c hc)

theorem isIdentifierChars_capitalize {cs : List Char} (h : isIdentifierChars cs = true) :
    isIdentifierChars (Text.capitalize cs) = true := by
  obtain ⟨c, rest, rfl, hc, hrest⟩ := isIdentifierChars_iff.mp h
  have hascii := ascii_of_isNamePart (isNamePart_of_isNameStart hc)
  refine isIdentifierChars_iff.mpr ⟨c.toUpper, rest.flatMap Text.lower, ?_, ?_, ?_⟩
  · rw [Text.capitalize, Text.formOf_upper.ascii c hascii, List.singleton_append]
  · exact Text.forall_ascii (P := fun c => isNameStart c = true → isNameStart c.toUpper = true)
      (by decide) hascii hc
  · intro d hd
    obtain ⟨e, he, hd⟩ := List.mem_flatMap.mp hd
    have hascii := ascii_of_isNamePart (hrest e he)
    rw [Text.formOf_lower.ascii e hascii, List.mem_singleton] at hd
    subst hd
    exact Text.forall_ascii (P := fun c => isNamePart c = true → isNamePart c.toLower = true)
      (by decide) hascii (hrest e he)

/-! ### Names from paths -/

/-- The stem of the file that a path names, without characters if it names none. -/
def fileStem (path : String) : List Char := ((fileName? path.toList).map stem).getD []

theorem derivedName_eq_capitalize (path : String) :
    derivedName path = Text.capitalize (fileStem path) := by
  unfold derivedName fileStem
  cases fileName? path.toList with
  | none => rfl
  | some name => rfl

/-- The class name by a full case mapping. -/
def classNameBy (m : CaseMapping) (settings : Settings) (path : String) :
    Except CommandError String :=
  if isIdentifierChars (m.capitalize (fileStem path)) then
    .ok (String.ofList (m.capitalize (fileStem path)))
  else if isIdentifier settings.defaultName then .ok settings.defaultName
  else .error (.badDefaultName settings.defaultName)

/- What a mapping says beyond the tables never gets into an identifier. -/
theorem classNameBy_eq (m : CaseMapping) (settings : Settings) (path : String) :
    classNameBy m settings path = className settings path := by
  unfold classNameBy className
  rw [derivedName_eq_capitalize]
  rcases m.agree_capitalize (fileStem path) with heq | ⟨hm, htables⟩
  · rw [heq]
  · rw [if_neg (mt ascii_of_isIdentifierChars hm), if_neg (mt ascii_of_isIdentifierChars htables)]

theorem fileName?_of_plain {cs : List Char} (hslash : '/' ∉ cs) (hdots : ∃ c ∈ cs, c ≠ '.') :
    fileName? cs = some cs := by
  have hparts : pathParts cs = [cs] := by
    refine List.splitOnP_eq_singleton fun c hc => ?_
    rw [beq_eq_false_iff_ne]
    rintro rfl
    exact hslash hc
  have hne : ∀ n, cs ≠ List.replicate n '.' := by
    rintro n rfl
    obtain ⟨c, hc, hdot⟩ := hdots
    exact hdot (List.eq_of_mem_replicate hc)
  have hplain : cs ≠ [] ∧ cs ≠ ['.'] ∧ cs ≠ ['.', '.'] := ⟨hne 0, hne 1, hne 2⟩
  simp [fileName?, hparts, hplain]

theorem stem_append_extension {name extension : List Char} (hname : name ≠ [])
    (hext : '.' ∉ extension) : stem (name ++ '.' :: extension) = name := by
  have hdrop : (name ++ '.' :: extension).reverse.dropWhile (· != '.') = '.' :: name.reverse := by
    rw [List.reverse_append, List.reverse_cons, List.append_assoc, List.singleton_append,
      List.dropWhile_append_of_pos, List.dropWhile_cons_of_neg]
    · simp
    · intro c hc
      rw [bne_iff_ne]
      rintro rfl
      exact hext (List.mem_reverse.mp hc)
  rw [stem, hdrop]
  simp [hname]

theorem fileStem_json {name : String} (h : isIdentifier name = true) :
    fileStem (name ++ ".json") = name.toList := by
  have hpart := isNamePart_of_isIdentifierChars h
  have hnot : ∀ c, isNamePart c = false → c ∉ name.toList := by
    intro c hc hmem
    rw [hpart c hmem] at hc
    cases hc
  have hempty : name.toList ≠ [] := by
    intro hnil
    rw [isIdentifier, hnil] at h
    cases h
  have hchars : (name ++ ".json").toList = name.toList ++ '.' :: "json".toList := by
    rw [String.toList_append]
    rfl
  have hfile : fileName? (name ++ ".json").toList = some (name ++ ".json").toList := by
    rw [hchars]
    refine fileName?_of_plain ?_ ⟨'j', by simp, by decide⟩
    simp [hnot '/' (by decide)]
  rw [fileStem, hfile, hchars, Option.map_some, Option.getD_some,
    stem_append_extension hempty (by decide)]

theorem isIdentifier_className {settings : Settings} {path name : String}
    (h : className settings path = .ok name) : isIdentifier name = true := by
  unfold className at h
  split at h
  · next hderived =>
    cases h
    rwa [isIdentifier, String.toList_ofList]
  · split at h
    · next hdefault =>
      cases h
      exact hdefault
    · cases h

/- An identifier is capitalized to an identifier, so the default name never comes into play. -/
theorem className_json (settings : Settings) {name : String} (h : isIdentifier name = true) :
    className settings (name ++ ".json") = .ok (String.ofList (Text.capitalize name.toList)) := by
  rw [className, derivedName_eq_capitalize, fileStem_json h,
    if_pos (isIdentifierChars_capitalize h)]

/-- A class name that is derived from a file name is an identifier, does not start with a lower-case
letter, and is the same by every full case mapping. Behind the first character it has no capitals,
and the file of its own name gives it again, exactly if the stem starts with a character whose
upper-case form is a single one. -/
theorem derived_name_capitalized (m : CaseMapping) (settings : Settings) (path name : String)
    (h : className settings path = .ok name) (hderived : name.toList = derivedName path) :
    classNameBy m settings path = .ok name ∧
    (∃ c cs, name.toList = c :: cs ∧ (c.isAlpha = true ∨ c = '_' ∨ c = '$') ∧ c.isLower = false ∧
      ∀ d ∈ cs, d.isAlphanum = true ∨ d = '_' ∨ d = '$') ∧
    ∃ first, (fileStem path).head? = some first ∧
      ((∀ d ∈ name.toList.tail, d.isUpper = false) ↔ (m.upper first).length = 1) ∧
      ∀ others, className others (name ++ ".json") = .ok name ↔ (m.upper first).length = 1 := by
  have hname := isIdentifier_className h
  have hascii := ascii_of_isIdentifierChars hname
  obtain ⟨c, cs, hcons, hc, hcs⟩ := isIdentifierChars_iff.mp hname
  -- the name is what the mapping makes of the stem, too
  rw [derivedName_eq_capitalize] at hderived
  have hmapped : m.capitalize (fileStem path) = c :: cs := by
    rw [(m.agree_capitalize (fileStem path)).eq (hderived ▸ hascii), ← hderived, hcons]
  have hascii' : Ascii (c :: cs) := hcons ▸ hascii
  obtain ⟨first, d, tail, hfirst, hparts, hd, htail⟩ :=
    m.capitalize_parts (hmapped ▸ hascii') (by simp [hmapped])
  obtain ⟨rfl, rfl⟩ := List.cons.inj (hmapped.symm.trans hparts)
  refine ⟨by rw [classNameBy_eq, h], ⟨c, cs, hcons, ?_, hd, ?_⟩, first, hfirst, ?_,
    fun others => ?_⟩
  · simpa [isNameStart, or_assoc] using hc
  · simpa [isNamePart, or_assoc] using hcs
  · rw [hcons, List.tail_cons, htail]
  · rw [className_json others hname, ← htail, ← Text.capitalize_eq_self_iff hascii' hd,
      Except.ok.injEq, ← hcons]
    constructor
    · intro heq
      simpa using congrArg String.toList heq
    · intro heq
      rw [heq, String.ofList_toList]

/- A dotless i and the sign for kelvin: both characters are outside ASCII, and the name is not. -/
theorem derived_name_capitalized_kelvin : className {} "x/\u0131\u212a.json" = .ok "Ik" ∧
    (∀ d ∈ "Ik".toList.tail, d.isUpper = false) ∧
    ∀ others, className others "Ik.json" = .ok "Ik" := by
  have hname : className {} "x/\u0131\u212a.json" = .ok "Ik" := rfl
  obtain ⟨-, -, first, hfirst, hlater, hagain⟩ :=
    derived_name_capitalized .tables {} "x/\u0131\u212a.json" "Ik" hname (by decide)
  cases hfirst
  exact ⟨hname, hlater.mpr (by decide), fun others => (hagain others).mpr (by decide)⟩

/- The upper-case form of a sharp s is two letters. So there is a second capital, and the name is
not the one that a file of this name gives. -/
theorem two_capitals_from_sharp_s : className {} "\u00dftrasse.json" = .ok "SStrasse" ∧
    (∃ d ∈ "SStrasse".toList.tail, d.isUpper = true) ∧
    className {} "SStrasse.json" = .ok "Sstrasse" := by
  exact ⟨rfl, ⟨'S', by decide, by decide⟩, rfl⟩

end Command

end RpgLowering
