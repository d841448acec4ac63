import RpgLowering.Proofs.Members

/-! The type query of the source and the types of the program. Whether `+` joins texts is asked of the
source, before the operand has a type in the program. Once the data is declared the two answers agree,
but for a `%DEC` whose digits are not known: it is an integer, and counts as a text. -/
namespace RpgLowering.Source

/-- The digits and places of `%DEC` are written as literals, of which the places are a part. -/
def LiteralDigits (digits places : Expr) : Prop :=
  ∃ span d span' p, digits = .int span d ∧ places = .int span' p ∧ p ≤ d ∧ 0 ≤ p

/-- The expression itself is a `%DEC` without a type. -/
def Expr.IsUntypedDec (e : Expr) : Prop :=
  ∃ span value digits places, e = .dec span value digits places ∧ ¬ LiteralDigits digits places

theorem decType_of_literalDigits {digits places : Expr} (h : LiteralDigits digits places) :
    ∃ entire decimals, decType digits places = .ok (.number entire decimals) := by
  obtain ⟨span, d, span', p, rfl, rfl, hp⟩ := h
  exact ⟨_, _, if_pos hp⟩

theorem decType_of_not_literalDigits {digits places : Expr} (h : ¬ LiteralDigits digits places) :
    decType digits places = .error (.notModelled "%DEC") := by
  unfold decType
  split
  · rename_i span d span' p
    apply if_neg
    intro hp
    exact h ⟨span, d, span', p, rfl, rfl, hp⟩
  · rfl

end RpgLowering.Source

namespace RpgLowering.Core
open RpgLowering.Source (CompilationUnit LiteralDigits Subroutine)
variable {u : CompilationUnit} {p : Program}

theorem isText_eq_true {x : Source.Expr} : isText u x = true ↔
    (∃ err, x.staticType u = .error err) ∨
      ∃ length varying, x.staticType u = .ok (.string length varying) := by
  unfold isText
  cases x.staticType u with
  | error err => simp
  | ok t => cases t <;> simp [Source.Ty.isString]

/-- The length of the right operand changes a text, but not whether there is one. -/
theorem isText_plus (span : Option Span) (left right : Source.Expr) :
    isText u (.binary span .plus left right) = isText u left := by
  have hjoin : ∀ (t : Source.Ty) other, (Source.joinTypes t other).isString = t.isString := by
    intro t other
    unfold Source.joinTypes
    split <;> rfl
  unfold isText
  rw [Source.Expr.staticType]
  cases left.staticType u with
  | error err => rfl
  | ok t => exact hjoin t _

theorem isText_dec (span : Option Span) (value digits places : Source.Expr) :
    isText u (.dec span value digits places) = true ↔ ¬ LiteralDigits digits places := by
  unfold isText
  rw [Source.Expr.staticType]
  by_cases h : LiteralDigits digits places
  · obtain ⟨entire, decimals, hty⟩ := Source.decType_of_literalDigits h
    simp [hty, h, Source.Ty.isString]
  · simp [Source.decType_of_not_literalDigits h, h]

theorem toCore_eq_string {t : Source.Ty} {t' : Ty} (h : t.toCore = .ok t') :
    t' = .string ↔ t.isString = true := by
  cases t with
  | string length varying =>
    cases h
    simp [Source.Ty.isString]
  | number digits decimals =>
    cases h
    simp only [Source.Ty.isString, Bool.false_eq_true, iff_false]
    split <;> simp
  | _ =>
    simp only [Source.Ty.toCore, bind_eq_ok] at h
    obtain ⟨_, _, ⟨⟩⟩ := h

theorem ty?_sum_ne_string (l r : Expr) : (Expr.sum l r).ty? p ≠ some .string := by
  rw [Expr.ty?]
  split
  · split <;> simp
  · simp

section
variable (hgs : Globals u u.declarations p.globals) {xs : List Subroutine}
include hgs

/-- A reference finds the first declaration on one side and its global on the other. -/
theorem isText_data {span : Option Span} {r : Source.Reference Source.DataId} {g : GlobalId}
    (h : (scopeOf u u.declarations xs).global r span = .ok g) :
    isText u (.data span r) = true ↔ (Expr.global g).ty? p = some .string := by
  obtain ⟨id, hr, hid⟩ := Scope.global_eq_ok.mp h
  obtain ⟨d, x, hd, -, hx, -, hty⟩ := hgs.declaration hid
  have htext : isText u (.data span r) = d.ty.isString := by
    simp [isText, Source.Expr.staticType, CompilationUnit.typeOf, hr, hd]
  have hglobal : (Expr.global g).ty? p = some x.ty := by
    simp [Expr.ty?, Program.typeOf?, Program.global?, hx]
  rw [htext, hglobal, Option.some.injEq, toCore_eq_string hty]

/- No induction is needed: a `+` is a text if its left operand counts as one, and the same test has
already made it a concatenation. -/
theorem isText_iff {x : Source.Expr} {e : Expr}
    (h : Expr.ofSource (scopeOf u u.declarations xs) x = .ok e) :
    isText u x = true ↔ e.ty? p = some .string ∨ x.IsUntypedDec := by
  cases x with
  | int | real | string =>
    cases h
    simp [isText, Source.Expr.staticType, Source.intType, Source.realType, Source.Ty.isString,
      Expr.ty?, Source.Expr.IsUntypedDec]
  | boolean | assign => cases h
  | data span r =>
    simp only [Expr.ofSource, bind_eq_ok] at h
    obtain ⟨g, hg, ⟨⟩⟩ := h
    rw [isText_data hgs hg]
    simp [Source.Expr.IsUntypedDec]
  | binary span op left right =>
    cases op with
    | plus =>
      simp only [Expr.ofSource, bind_eq_ok] at h
      obtain ⟨l, hl, r, hr, heq⟩ := h
      have htest : isText (scopeOf u u.declarations xs).unit left = isText u left := rfl
      rw [htest] at heq
      rw [isText_plus]
      cases htext : isText u left with
      | true =>
        simp only [htext, if_true, Except.ok.injEq] at heq
        subst heq
        simp [Expr.ty?]
      | false =>
        simp only [htext, Bool.false_eq_true, if_false, Except.ok.injEq] at heq
        subst heq
        simp [ty?_sum_ne_string, Source.Expr.IsUntypedDec]
    | equality =>
      simp only [Expr.ofSource, bind_eq_ok] at h
      obtain ⟨l, hl, r, hr, ⟨⟩⟩ := h
      simp [isText, Source.Expr.staticType, Source.Ty.isString, Expr.ty?, Source.Expr.IsUntypedDec]
    | _ => cases h
  | unary span op x =>
    cases op with
    | char =>
      simp only [Expr.ofSource, bind_eq_ok] at h
      obtain ⟨v, hv, ⟨⟩⟩ := h
      simp [isText, Source.Expr.staticType, Source.Ty.isString, Expr.ty?]
    | _ => cases h
  | dec span value digits places =>
    simp only [Expr.ofSource, bind_eq_ok] at h
    obtain ⟨v, hv, ⟨⟩⟩ := h
    rw [isText_dec]
    simp [Expr.ty?, Source.Expr.IsUntypedDec]

end

/-- Where the data of a unit can be declared, the type query gives a text or no answer for exactly
those expressions that are texts in the program, and for a `%DEC` without a type. So `+` joins texts
exactly after such an operand, and adds numbers after any other. -/
theorem staticType_agrees (name : String) (u : CompilationUnit) {s : Scope} {p : Program}
    (h : declareAllData { unit := u } (Program.new name) u.declarations = .ok (s, p))
    {x : Source.Expr} {e : Expr} (he : Expr.ofSource s x = .ok e) :
    ((∃ err, x.staticType u = .error err) ∨
        (∃ length varying, x.staticType u = .ok (.string length varying)) ↔
      e.ty? p = some .string ∨ x.IsUntypedDec) ∧
    ∀ span left right, x = .binary span .plus left right →
      ∃ l r, Expr.ofSource s left = .ok l ∧ Expr.ofSource s right = .ok r ∧
        (e = .concat l r ↔ l.ty? p = some .string ∨ left.IsUntypedDec) ∧
        (e = .sum l r ↔ ¬ (l.ty? p = some .string ∨ left.IsUntypedDec)) := by
  obtain ⟨hr, hgs⟩ := declareAllData_result h
  obtain ⟨rfl, -⟩ := Prod.mk.inj hr
  refine ⟨isText_eq_true.symm.trans (isText_iff hgs he), ?_⟩
  intro span left right hx
  subst hx
  simp only [Expr.ofSource, bind_eq_ok] at he
  obtain ⟨l, hl, r, hr, heq⟩ := he
  refine ⟨l, r, hl, hr, ?_⟩
  have htest : isText (scopeOf u u.declarations []).unit left = isText u left := rfl
  rw [htest] at heq
  rw [← isText_iff hgs hl]
  cases htext : isText u left with
  | true =>
    simp only [htext, if_true, Except.ok.injEq] at heq
    simp [← heq]
  | false =>
    simp only [htext, Bool.false_eq_true, if_false, Except.ok.injEq] at heq
    simp [← heq]

/-- A text and a number. The number is declared once more, as a text. -/
def textAndNumber : CompilationUnit :=
  { data := [
      { id := ⟨1⟩, name := "A", ty := .string 5 false },
      { id := ⟨2⟩, name := "N", ty := .number 3 0 },
      { id := ⟨2⟩, name := "A", ty := .string 3 true }] }

/-- `%DEC(A : N : 0)` -/
def decOfNumber : Source.Expr :=
  .dec none (.data none ⟨"A", some ⟨1⟩⟩) (.data none ⟨"N", some ⟨2⟩⟩) (.int none 0)

theorem staticType_agrees_decOfNumber : ∃ s p l r,
    declareAllData { unit := textAndNumber } (Program.new "Test") textAndNumber.declarations =
      .ok (s, p) ∧
    Expr.ofSource s decOfNumber = .ok l ∧ l.ty? p = some .integer ∧
    Expr.ofSource s (.binary none .plus decOfNumber (.data none ⟨"N", some ⟨2⟩⟩)) =
      .ok (.concat l r) := by
  have hdec : decOfNumber.IsUntypedDec := by
    refine ⟨_, _, _, _, rfl, ?_⟩
    intro h
    obtain ⟨_, _, _, _, hdigits, -⟩ := h
    cases hdigits
  obtain ⟨-, hplus⟩ := staticType_agrees "Test" textAndNumber rfl
    (x := .binary none .plus decOfNumber (.data none ⟨"N", some ⟨2⟩⟩)) rfl
  obtain ⟨l, r, hl, hr, hconcat, -⟩ := hplus none _ _ rfl
  have hjoined := hconcat.mpr (.inr hdec)
  refine ⟨_, _, l, r, rfl, hl, ?_, congrArg _ hjoined⟩
  cases hl
  rfl

end RpgLowering.Core
