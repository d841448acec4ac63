import RpgLowering.Proofs.ClassMembers
import RpgLowering.Proofs.Emission
import RpgLowering.Proofs.Occurrences
import RpgLowering.Proofs.ProgramExecution
import RpgLowering.Proofs.TypeQuery

/-! Types of expressions in a program and in its class. They are the same unless `+` has a text on one
side only: the program decides by the left operand whether `+` joins texts, the class by both. -/
namespace RpgLowering

namespace Core
open RpgLowering.Source (CompilationUnit)
variable {u : CompilationUnit} {p : Program} {s : Scope}

/-- Where texts are joined, an operand is certain to be a text, and no text is added like a number. -/
def Expr.Unmixed (p : Program) : Expr → Prop
  | .concat l r =>
    l.ty? p = some .string ∧ l.Unmixed p ∨ r.ty? p = some .string ∧ r.Unmixed p
  | .sum l r => l.Unmixed p ∧ r.Unmixed p ∧ r.ty? p ≠ some .string
  | _ => True

def Expr.OperandsUnmixed (p : Program) : Expr → Prop
  | .concat l r | .sum l r => l.Unmixed p ∧ r.Unmixed p
  | _ => True

/-- The two forms of `+`, each with the operands it came from. -/
theorem exprOfSource_plus (joins : Bool) {x : Source.Expr} {l r : Expr}
    (h : Expr.ofSource s x = .ok (if joins then .concat l r else .sum l r)) :
    ∃ left right, Expr.ofSource s left = .ok l ∧ Expr.ofSource s right = .ok r ∧
      isText s.unit left = joins := by
  cases x with
  | binary span op left right =>
    cases op with
    | plus =>
      simp only [Expr.ofSource, bind_eq_ok] at h
      obtain ⟨l', hl, r', hr, heq⟩ := h
      refine ⟨left, right, ?_⟩
      cases htext : isText s.unit left <;> cases joins <;>
        simp [htext] at heq <;> exact ⟨heq.1 ▸ hl, heq.2 ▸ hr, rfl⟩
    | equality =>
      simp only [Expr.ofSource, bind_eq_ok] at h
      obtain ⟨l', hl, r', hr, heq⟩ := h
      cases joins <;> cases heq
    | _ => cases h
  | unary span op x =>
    cases op with
    | char =>
      simp only [Expr.ofSource, bind_eq_ok] at h
      obtain ⟨v, hv, heq⟩ := h
      cases joins <;> cases heq
    | _ => cases h
  | data span r' =>
    simp only [Expr.ofSource, bind_eq_ok] at h
    obtain ⟨g, hg, heq⟩ := h
    cases joins <;> cases heq
  | dec span value digits places =>
    simp only [Expr.ofSource, bind_eq_ok] at h
    obtain ⟨v, hv, heq⟩ := h
    cases joins <;> cases heq
  | _ => cases joins <;> cases h

/-- An operand that counts as a text is one, or is the integer that some text spells. -/
theorem ty?_of_isText (hp : ProgramOf u p) {x : Source.Expr} {e : Expr}
    (h : Expr.ofSource (unitScope u) x = .ok e) :
    if isText u x then e.ty? p = some .string ∨ ∃ text, e = .parse text
      else e.ty? p ≠ some .string := by
  have hiff := isText_iff hp.globals h
  by_cases htext : isText u x = true
  · rw [if_pos htext]
    apply (hiff.mp htext).imp_right
    intro hdec
    obtain ⟨span, value, digits, places, rfl, -⟩ := hdec
    simp only [Expr.ofSource, bind_eq_ok] at h
    obtain ⟨v, hv, ⟨⟩⟩ := h
    exact ⟨v, rfl⟩
  · rw [if_neg htext]
    exact fun hty => htext (hiff.mpr (.inl hty))

/-- Texts are joined after a text or after an integer that is parsed from a text. -/
theorem Expr.FromSource.concat (hp : ProgramOf u p) {l r : Expr}
    (h : (Expr.concat l r).FromSource (unitScope u)) :
    l.FromSource (unitScope u) ∧ r.FromSource (unitScope u) ∧
      (l.ty? p = some .string ∨ ∃ text, l = .parse text) := by
  obtain ⟨x, hx⟩ := h
  obtain ⟨left, right, hleft, hright, htext⟩ := exprOfSource_plus true hx
  have hty := ty?_of_isText hp hleft
  rw [show isText u left = true from htext, if_pos rfl] at hty
  exact ⟨⟨left, hleft⟩, ⟨right, hright⟩, hty⟩

theorem Expr.FromSource.equal {l r : Expr} (h : (Expr.equal l r).FromSource s) :
    l.FromSource s ∧ r.FromSource s := by
  obtain ⟨x, hx⟩ := h
  have hparts := fromSource_parts hx
  exact ⟨hparts l (by simp [Expr.parts, l.self_mem_parts]),
    hparts r (by simp [Expr.parts, r.self_mem_parts])⟩

/-- The left operand of a sum is not a text. -/
theorem Expr.FromSource.sum (hp : ProgramOf u p) {l r : Expr}
    (h : (Expr.sum l r).FromSource (unitScope u)) :
    l.FromSource (unitScope u) ∧ r.FromSource (unitScope u) ∧ l.ty? p ≠ some .string := by
  obtain ⟨x, hx⟩ := h
  obtain ⟨left, right, hleft, hright, htext⟩ := exprOfSource_plus false hx
  have hty := ty?_of_isText hp hleft
  rw [show isText u left = false from htext, if_neg Bool.false_ne_true] at hty
  exact ⟨⟨left, hleft⟩, ⟨right, hright⟩, hty⟩

end Core

namespace Target
open RpgLowering.Core (GlobalId Program)
open RpgLowering.Source (CompilationUnit)
variable {u : CompilationUnit} {p : Program} {c : Class}

def stringTy : Ty := .named "java.lang.String"

/-- The type of `+`: a text if an operand is one, else that of the wider number. -/
def plusTy (left right : Option Ty) : Option Ty :=
  if left = some stringTy ∨ right = some stringTy then some stringTy
  else match left, right with
    | some .long, some .long => some .long
    | some .long, some .double | some .double, some .long | some .double, some .double => some .double
    | _, _ => none

/-- The type of a call of a static method. -/
def callTy (scope name : String) : Option Ty :=
  if scope = "java.lang.Long" ∧ name = "parseLong" then some .long
  else if scope = "java.util.Objects" ∧ name = "equals" then some .boolean
  else none

/-- The type that an expression has in a class, where all integers count as long. -/
def Expr.staticType (c : Class) : Expr → Option Ty
  | .int _ => some .long
  | .double _ => some .double
  | .string _ => some stringTy
  | .field .this n => (c.field? n).map (·.ty)
  | .binary .plus left right => plusTy (left.staticType c) (right.staticType c)
  | .binary .equals _ _ | .binary .atMost _ _ => some .boolean
  | .call (some (.name scope)) n _ => callTy scope n
  | _ => none

theorem plusTy_eq_string {left right : Option Ty} :
    plusTy left right = some stringTy ↔ left = some stringTy ∨ right = some stringTy := by
  unfold plusTy
  by_cases h : left = some stringTy ∨ right = some stringTy
  · simp [h]
  · rw [if_neg h]
    simp only [h, iff_false]
    split <;> simp [stringTy]

theorem plusTy_toTarget {a b : Core.Ty} (ha : a ≠ .string) (hb : b ≠ .string) :
    plusTy (some a.toTarget) (some b.toTarget) =
      some (if a = .decimal ∨ b = .decimal then Core.Ty.decimal else .integer).toTarget := by
  revert ha hb
  cases a <;> cases b <;> decide

theorem toTarget_eq_string {t : Core.Ty} : t.toTarget = stringTy ↔ t = .string := by
  cases t <;> decide

theorem staticType_equalsTest (l r : Core.Expr) (l' r' : Expr) :
    (equalsTest p l r l' r').staticType c = some .boolean := by
  unfold equalsTest
  split <;> rfl

/-- The field of a global has its type. -/
theorem staticType_fieldOf (hc : Class.ofCore p = .ok c) (hn : (p.globals.map (·.name)).Nodup)
    {id : GlobalId} {e : Expr} (h : fieldOf p id = .ok e) :
    ∃ t, p.typeOf? id = some t ∧ e.staticType c = some t.toTarget := by
  obtain ⟨g, hg, rfl⟩ := fieldOf_eq_ok.mp h
  obtain ⟨f, hf, hty⟩ := ty_field? hc hn hg
  exact ⟨g.ty, by simp [Program.typeOf?, hg], by simp [Expr.thisField, Expr.staticType, hf, hty]⟩

section
variable (hp : Core.ProgramOf u p) (hc : Class.ofCore p = .ok c)

include hp hc

/-- Of unmixed expressions, texts in the program are texts in the class, and no others. -/
theorem staticType_eq_string {e : Core.Expr} {e' : Expr} (he' : Expr.ofCore p e = .ok e')
    (hs : e.FromSource (Core.unitScope u)) (hu : e.Unmixed p) :
    e'.staticType c = some stringTy ↔ e.ty? p = some .string := by
  induction e generalizing e' with
  | integer | decimal | string =>
    cases he'
    simp [Expr.staticType, stringTy, Core.Expr.ty?]
  | parse e ih =>
    simp only [Expr.ofCore, bind_eq_ok] at he'
    obtain ⟨v, hv, ⟨⟩⟩ := he'
    simp [Expr.staticType, callTy, stringTy, Core.Expr.ty?]
  | format e ih =>
    simp only [Expr.ofCore, bind_eq_ok] at he'
    obtain ⟨v, hv, ⟨⟩⟩ := he'
    simp [Expr.staticType, plusTy_eq_string, Core.Expr.ty?]
  | global id =>
    obtain ⟨t, ht, hty⟩ := staticType_fieldOf hc hp.globals.nodup_names he'
    rw [hty, Core.Expr.ty?, ht, Option.some.injEq, Option.some.injEq, toTarget_eq_string]
  | concat l r ihl ihr =>
    simp only [Expr.ofCore, bind_eq_ok] at he'
    obtain ⟨l', hl, r', hr, ⟨⟩⟩ := he'
    obtain ⟨hsl, hsr, -⟩ := hs.concat hp
    rw [Expr.staticType, plusTy_eq_string]
    refine ⟨fun _ => rfl, fun _ => ?_⟩
    rcases hu with ⟨hty, hul⟩ | ⟨hty, hur⟩
    · exact .inl ((ihl hl hsl hul).mpr hty)
    · exact .inr ((ihr hr hsr hur).mpr hty)
  | sum l r ihl ihr =>
    simp only [Expr.ofCore, bind_eq_ok] at he'
    obtain ⟨l', hl, r', hr, ⟨⟩⟩ := he'
    obtain ⟨hsl, hsr, hleft⟩ := hs.sum hp
    obtain ⟨hul, hur, hright⟩ := hu
    rw [Expr.staticType, plusTy_eq_string, ihl hl hsl hul, ihr hr hsr hur]
    simp only [hleft, hright, or_self, Core.ty?_sum_ne_string]
  | equal l r ihl ihr =>
    simp only [Expr.ofCore, bind_eq_ok] at he'
    obtain ⟨l', hl, r', hr, ⟨⟩⟩ := he'
    rw [staticType_equalsTest]
    simp [stringTy, Core.Expr.ty?]

/-- An unmixed expression has the same type in the class as in the program. -/
theorem staticType_of_unmixed {e : Core.Expr} {e' : Expr} (he' : Expr.ofCore p e = .ok e')
    (hs : e.FromSource (Core.unitScope u)) (hu : e.Unmixed p) {t : Core.Ty} (ht : e.ty? p = some t) :
    e'.staticType c = some t.toTarget := by
  by_cases hstring : t = .string
  · subst hstring
    exact (staticType_eq_string hp hc he' hs hu).mpr ht
  · induction e generalizing e' t with
    | integer | decimal =>
      cases he'
      cases ht
      rfl
    | string | concat | format => exact absurd (Option.some.inj ht).symm hstring
    | parse e ih =>
      simp only [Expr.ofCore, bind_eq_ok] at he'
      obtain ⟨v, hv, ⟨⟩⟩ := he'
      cases ht
      rfl
    | global id =>
      obtain ⟨t', ht', hty⟩ := staticType_fieldOf hc hp.globals.nodup_names he'
      obtain rfl : t' = t := Option.some.inj (ht'.symm.trans ht)
      exact hty
    | sum l r ihl ihr =>
      simp only [Expr.ofCore, bind_eq_ok] at he'
      obtain ⟨l', hl, r', hr, ⟨⟩⟩ := he'
      obtain ⟨hsl, hsr, hleft⟩ := hs.sum hp
      obtain ⟨hul, hur, hright⟩ := hu
      rw [Core.Expr.ty?] at ht
      cases ha : l.ty? p with
      | none => simp [ha] at ht
      | some a =>
        cases hb : r.ty? p with
        | none => simp [ha, hb] at ht
        | some b =>
          rw [ha] at hleft
          rw [hb] at hright
          have ha' : a ≠ .string := fun heq => hleft (heq ▸ rfl)
          have hb' : b ≠ .string := fun heq => hright (heq ▸ rfl)
          rw [Expr.staticType, ihl hl hsl hul ha ha', ihr hr hsr hur hb hb', plusTy_toTarget ha' hb']
          simp only [ha, hb] at ht
          rw [Option.some.inj ht]
    | equal l r => cases ht

/-- One mixed operation between unmixed operands is enough for another type. -/
theorem unmixed_of_staticType {e : Core.Expr} {e' : Expr} (he' : Expr.ofCore p e = .ok e')
    (hs : e.FromSource (Core.unitScope u)) (hu : e.OperandsUnmixed p) {t : Core.Ty}
    (ht : e.ty? p = some t) (hty : e'.staticType c = some t.toTarget) : e.Unmixed p := by
  cases e with
  | concat l r =>
    simp only [Expr.ofCore, bind_eq_ok] at he'
    obtain ⟨l', hl, r', hr, ⟨⟩⟩ := he'
    obtain ⟨hsl, hsr, -⟩ := hs.concat hp
    cases ht
    have hor : l'.staticType c = some stringTy ∨ r'.staticType c = some stringTy :=
      plusTy_eq_string.mp hty
    rcases hor with hleft | hright
    · exact .inl ⟨(staticType_eq_string hp hc hl hsl hu.1).mp hleft, hu.1⟩
    · exact .inr ⟨(staticType_eq_string hp hc hr hsr hu.2).mp hright, hu.2⟩
  | sum l r =>
    simp only [Expr.ofCore, bind_eq_ok] at he'
    obtain ⟨l', hl, r', hr, ⟨⟩⟩ := he'
    obtain ⟨hsl, hsr, hleft⟩ := hs.sum hp
    refine ⟨hu.1, hu.2, fun hright => ?_⟩
    have hstring : t = .string := by
      rw [← toTarget_eq_string, ← Option.some.injEq, ← hty, Expr.staticType, plusTy_eq_string]
      exact .inr ((staticType_eq_string hp hc hr hsr hu.2).mpr hright)
    exact Core.ty?_sum_ne_string l r (hstring ▸ ht)
  | _ => trivial

end

/-- The types that the expressions of a program have in its class. An unmixed expression keeps its
type, and an equality between unmixed operands is tested by `Objects.equals` exactly where both are
texts in the class. An expression that is mixed in its last operation only has another type. All mixes
are texts that are added from the right, or else are joined to a parsed integer. -/
theorem staticType_ofSource {name : String} (h : Program.ofSource name u = .ok p) {e : Core.Expr}
    (he : e ∈ p.occurrences) :
    ∃ c e', Class.ofCore p = .ok c ∧ Expr.ofCore p e = .ok e' ∧
      (∀ t, e.ty? p = some t → e.Unmixed p → e'.staticType c = some t.toTarget) ∧
      (∀ l r, e = .equal l r → l.Unmixed p → r.Unmixed p →
        ∃ l' r', Expr.ofCore p l = .ok l' ∧ Expr.ofCore p r = .ok r' ∧
          e' = if l'.staticType c = some stringTy ∧ r'.staticType c = some stringTy
            then .call (some (.name "java.util.Objects")) "equals" [l', r']
            else .binary .equals l' r') ∧
      (∀ t, e.ty? p = some t → e.OperandsUnmixed p → ¬ e.Unmixed p →
        e'.staticType c ≠ some t.toTarget) ∧
      (∀ l r, e = .concat l r → l.ty? p = some .string ∨ ∃ text, l = .parse text) ∧
      ∀ l r, e = .sum l r → l.ty? p ≠ some .string := by
  have hp := Core.programOf_ofSource h
  have hs := Core.fromSource_of_occurs hp he
  obtain ⟨file, hfile⟩ := exists_class_ofSource h
  obtain ⟨c, hc, -⟩ := SourceFile.ofCore_eq_ok.mp hfile
  have hrange : e.InRange p.globals.length := by
    obtain ⟨x, hx⟩ := hs
    exact Core.inRange_exprOfSource (hp.globals.within u.subroutines) hx
  obtain ⟨e', he'⟩ := (exists_exprOfCore e).mpr hrange
  refine ⟨c, e', hc, he', fun t ht hu => staticType_of_unmixed hp hc he' hs hu ht, ?_,
    fun t ht hu hmixed hty => hmixed (unmixed_of_staticType hp hc he' hs hu ht hty), ?_, ?_⟩
  · intro l r heq hul hur
    subst heq
    obtain ⟨hsl, hsr⟩ := hs.equal
    simp only [Expr.ofCore, bind_eq_ok] at he'
    obtain ⟨l', hl, r', hr, ⟨⟩⟩ := he'
    refine ⟨l', r', hl, hr, ?_⟩
    simp only [equalsTest, staticType_eq_string hp hc hl hsl hul, staticType_eq_string hp hc hr hsr hur]
  · intro l r heq
    subst heq
    exact (hs.concat hp).2.2
  · intro l r heq
    subst heq
    exact (hs.sum hp).2.2

theorem staticType_tally : ∃ c e', Class.ofCore Core.tallyProgram = .ok c ∧
    Expr.ofCore Core.tallyProgram (.sum (.global ⟨0⟩) (.global ⟨1⟩)) = .ok e' ∧
    e'.staticType c = some .long := by
  have hprogram : Program.ofSource "Tally" Core.tally = .ok Core.tallyProgram := rfl
  have hoccurs : Core.Expr.sum (.global ⟨0⟩) (.global ⟨1⟩) ∈ Core.tallyProgram.occurrences :=
    List.mem_cons_self
  obtain ⟨c, e', hc, he', htypes, -⟩ := staticType_ofSource hprogram hoccurs
  exact ⟨c, e', hc, he', htypes .integer rfl ⟨trivial, trivial, by decide⟩⟩

/-- A text that is added to a number is an integer in the program and a text in the class, so that two
of them are compared by `==`. A number that is joined to a parsed one is a text in the program and a
number in the class. -/
theorem staticType_mixed :
    (∃ p c l', Program.ofSource "Test" { main := [.display none none (some (.binary none .equality
        (.binary none .plus (.int none 1) (.string none "a"))
        (.binary none .plus (.int none 1) (.string none "a"))))] } = .ok p ∧
      Class.ofCore p = .ok c ∧
      Core.Expr.equal (.sum (.integer 1) (.string "a")) (.sum (.integer 1) (.string "a")) ∈
        p.occurrences ∧
      (Core.Expr.sum (.integer 1) (.string "a")).ty? p = some .integer ∧
      Expr.ofCore p (.sum (.integer 1) (.string "a")) = .ok l' ∧ l'.staticType c = some stringTy ∧
      Expr.ofCore p (.equal (.sum (.integer 1) (.string "a")) (.sum (.integer 1) (.string "a"))) =
        .ok (.binary .equals l' l')) ∧
    ∃ p c e', Program.ofSource "Test" {
        data := [{ id := ⟨1⟩, name := "A", ty := .string 5 false },
          { id := ⟨2⟩, name := "N", ty := .number 3 0 }]
        main := [.display none none (some (.binary none .plus (.dec none
          (.data none ⟨"A", some ⟨1⟩⟩) (.data none ⟨"N", some ⟨2⟩⟩) (.int none 0)) (.int none 1)))] } =
        .ok p ∧
      Class.ofCore p = .ok c ∧
      Core.Expr.concat (.parse (.global ⟨0⟩)) (.integer 1) ∈ p.occurrences ∧
      (Core.Expr.concat (.parse (.global ⟨0⟩)) (.integer 1)).ty? p = some .string ∧
      Expr.ofCore p (.concat (.parse (.global ⟨0⟩)) (.integer 1)) = .ok e' ∧
      e'.staticType c = some .long := by
  exact ⟨⟨_, _, _, rfl, rfl, List.mem_cons_self, rfl, rfl, rfl, rfl⟩,
    ⟨_, _, _, rfl, rfl, List.mem_cons_self, rfl, rfl, rfl⟩⟩

end Target

end RpgLowering
