import RpgLowering.Proofs.ClassExecution
import RpgLowering.Proofs.Emission
import RpgLowering.Proofs.Identities
import RpgLowering.Proofs.ReadBack

/-! Sums of integers in the text of a class. A program adds in 64 bits. In the class a literal that
fits has 32 bits, and so has a sum of nothing but such literals, which may overflow; every other sum
has 64 bits. -/
namespace RpgLowering

namespace Core

/-- Integer literals, globals of the integer type, and sums of them. -/
def Expr.IsIntegerSum (p : Program) : Expr → Prop
  | .integer _ => True
  | .global id => p.typeOf? id = some .integer
  | .sum l r => l.IsIntegerSum p ∧ r.IsIntegerSum p
  | _ => False

/-- The sum in 64 bits. -/
def Expr.total (σ : Store Int64) : Expr → Int64
  | .integer v => v
  | .global id => σ id
  | .sum l r => l.total σ + r.total σ
  | _ => 0

/-- Every operand is a literal of 32 bits. -/
def Expr.isNarrow : Expr → Bool
  | .integer v => !Target.isWide v
  | .sum l r => l.isNarrow && r.isNarrow
  | _ => false

/-- What the sums of literals of 32 bits lose or gain by their width. -/
def Expr.overflow (σ : Store Int64) : Expr → Int64
  | .sum l r =>
    if (Expr.sum l r).isNarrow then
      ((Expr.sum l r).total σ).toInt32.toInt64 - (Expr.sum l r).total σ
    else l.overflow σ + r.overflow σ
  | _ => 0

/-- The sums of literals of 32 bits need no more than 32 bits. -/
def Expr.Fits (σ : Store Int64) : Expr → Prop
  | .sum l r =>
    if (Expr.sum l r).isNarrow then Target.isWide ((Expr.sum l r).total σ) = false
    else l.Fits σ ∧ r.Fits σ
  | _ => True

end Core

namespace Target
open RpgLowering.Core (GlobalId Program)
open RpgLowering.Source (CompilationUnit)

/-- An integer with its width. -/
inductive Number where
  | int (value : Int32)
  | long (value : Int64)
  deriving DecidableEq

namespace Number

def widen : Number → Int64
  | int v => v.toInt64
  | long v => v

/-- Both operands are widened, unless both have 32 bits. -/
def add : Number → Number → Number
  | int a, int b => int (a + b)
  | a, b => long (a.widen + b.widen)

end Number

/-- The value of integers, long fields and their sums. -/
def Term.number (c : Class) (τ : Store Int64) : Term → Option Number
  | .int v => some (.int v)
  | .long v => some (.long v)
  | .field .this n => (c.field? n).bind fun f => if f.ty = .long then some (.long (τ n)) else none
  | .binary .plus l r => do some ((← l.number c τ).add (← r.number c τ))
  | _ => none

variable {p : Program} {c : Class} {σ : Core.Store Int64} {τ : Store Int64}

theorem toInt64_toInt32_eq_iff {v : Int64} : v.toInt32.toInt64 = v ↔ isWide v = false := by
  rw [← Int64.toInt_inj, Int32.toInt_toInt64, Int64.toInt_toInt32, isWide_eq_false_iff]
  constructor
  · intro h
    have hlow := Int.le_bmod (x := v.toInt) (m := 2 ^ 32) (by decide)
    have hhigh := Int.bmod_lt (x := v.toInt) (m := 2 ^ 32) (by decide)
    rw [h] at hlow hhigh
    omega
  · intro ⟨hlow, hhigh⟩
    exact Int.bmod_eq_of_le (by omega) (by omega)

theorem overflow_of_fits {e : Core.Expr} (h : e.Fits σ) : e.overflow σ = 0 := by
  induction e with
  | sum l r ihl ihr =>
    rw [Core.Expr.Fits] at h
    rw [Core.Expr.overflow]
    by_cases hnarrow : (Core.Expr.sum l r).isNarrow = true
    · rw [if_pos hnarrow] at h ⊢
      rw [toInt64_toInt32_eq_iff.mpr h, Int64.sub_self]
    · rw [if_neg hnarrow] at h ⊢
      rw [ihl h.1, ihr h.2, Int64.add_zero]
  | _ => rfl

/-- A sum of literals of 32 bits is off by its overflow as a whole. -/
theorem total_add_overflow {e : Core.Expr} (h : e.isNarrow = true) :
    e.total σ + e.overflow σ = (e.total σ).toInt32.toInt64 := by
  cases e with
  | integer v =>
    have hnarrow : isWide v = false := by simpa [Core.Expr.isNarrow] using h
    have hzero : (Core.Expr.integer v).overflow σ = 0 := rfl
    rw [hzero, Int64.add_zero]
    exact (toInt64_toInt32_eq_iff.mpr hnarrow).symm
  | sum l r =>
    rw [Core.Expr.overflow, if_pos h]
    grind
  | _ => cases h

/-- The field of an integer global is a long one. -/
theorem number_thisField (hc : Class.ofCore p = .ok c) (hn : (p.globals.map (·.name)).Nodup)
    (hστ : Corresponds p σ τ) {id : GlobalId} {g : Core.Global} (hg : p.global? id = some g)
    (hty : g.ty = .integer) :
    (Expr.thisField g.name).term.number c τ = some (.long (σ id)) := by
  obtain ⟨f, hf, hfty⟩ := ty_field? hc hn hg
  rw [hty] at hfty
  simp [Expr.thisField, Expr.term, Term.select, Term.number, hf, hfty, Core.Ty.toTarget, hστ id g hg]

/-- The number that a sum is in the class. -/
def emitted (σ : Core.Store Int64) (e : Core.Expr) : Number :=
  if e.isNarrow then .int (e.total σ).toInt32 else .long (e.total σ + e.overflow σ)

theorem widen_emitted (e : Core.Expr) : (emitted σ e).widen = e.total σ + e.overflow σ := by
  unfold emitted
  by_cases h : e.isNarrow = true
  · rw [if_pos h, total_add_overflow h, Number.widen]
  · rw [if_neg h, Number.widen]

/- One operand of 64 bits is enough for the whole sum to have 64 bits. -/
theorem add_emitted {l r : Core.Expr} (h : (l.isNarrow && r.isNarrow) = false) :
    (emitted σ l).add (emitted σ r) = .long ((emitted σ l).widen + (emitted σ r).widen) := by
  unfold emitted
  cases hl : l.isNarrow with
  | false => rfl
  | true =>
    cases hr : r.isNarrow with
    | false => rfl
    | true => simp [hl, hr] at h

theorem emitted_sum (l r : Core.Expr) : emitted σ (.sum l r) = (emitted σ l).add (emitted σ r) := by
  cases hnarrow : l.isNarrow && r.isNarrow with
  | true =>
    obtain ⟨hl, hr⟩ := (Bool.and_eq_true _ _).mp hnarrow
    simp [emitted, Core.Expr.isNarrow, hl, hr, Number.add, Core.Expr.total]
  | false =>
    have hsum : (Core.Expr.sum l r).isNarrow = false := hnarrow
    rw [add_emitted hnarrow, widen_emitted, widen_emitted, emitted, hsum, Core.Expr.total,
      Core.Expr.overflow, hsum]
    simp only [Bool.false_eq_true, if_false, Number.long.injEq]
    grind

/-- The number that the text of a sum stands for. -/
theorem number_term (hc : Class.ofCore p = .ok c) (hn : (p.globals.map (·.name)).Nodup)
    (hστ : Corresponds p σ τ) {e : Core.Expr} (he : e.IsIntegerSum p) {e' : Expr}
    (he' : Expr.ofCore p e = .ok e') : e'.term.number c τ = some (emitted σ e) := by
  induction e generalizing e' with
  | integer v =>
    cases he'
    cases hwide : isWide v with
    | false => simp [Expr.term, Term.number, emitted, Core.Expr.isNarrow, Core.Expr.total, hwide]
    | true =>
      simp [Expr.term, Term.number, emitted, Core.Expr.isNarrow, Core.Expr.total,
        Core.Expr.overflow, hwide]
  | global id =>
    obtain ⟨g, hg, rfl⟩ := fieldOf_eq_ok.mp he'
    have hty : g.ty = .integer := by simpa [Core.Expr.IsIntegerSum, Program.typeOf?, hg] using he
    rw [number_thisField hc hn hστ hg hty]
    simp [emitted, Core.Expr.isNarrow, Core.Expr.total, Core.Expr.overflow]
  | sum l r ihl ihr =>
    simp only [Expr.ofCore, bind_eq_ok] at he'
    obtain ⟨l', hl, r', hr, ⟨⟩⟩ := he'
    rw [Expr.term, Term.number, ihl he.1 hl, ihr he.2 hr, emitted_sum]
    rfl
  | _ => exact he.elim

theorem readable_ofCore {L : Letters} {e : Core.Expr} (he : e.IsIntegerSum p)
    (hnames : ∀ id ∈ e.globalIds, ∀ g, p.global? id = some g → L.Identifier g.name.toList) {e' : Expr}
    (he' : Expr.ofCore p e = .ok e') : e'.Readable L := by
  induction e generalizing e' with
  | integer v =>
    cases he'
    trivial
  | global id =>
    obtain ⟨g, hg, rfl⟩ := fieldOf_eq_ok.mp he'
    exact ⟨rfl, trivial, hnames id (by simp [Core.Expr.globalIds]) g hg⟩
  | sum l r ihl ihr =>
    simp only [Expr.ofCore, bind_eq_ok] at he'
    obtain ⟨l', hl, r', hr, ⟨⟩⟩ := he'
    simp only [Core.Expr.globalIds, List.mem_append] at hnames
    exact ⟨ihl he.1 (fun id hid => hnames id (.inl hid)) hl,
      ihr he.2 (fun id hid => hnames id (.inr hid)) hr⟩
  | _ => exact he.elim

theorem inRange_of_isIntegerSum {e : Core.Expr} (he : e.IsIntegerSum p) :
    e.InRange p.globals.length := by
  induction e with
  | integer v => trivial
  | global id =>
    have hsome : (p.global? id).isSome = true := by
      have hty : p.typeOf? id = some .integer := he
      rw [← Option.isSome_map, ← Program.typeOf?, hty]
      rfl
    exact Program.isSome_global?.mp hsome
  | sum l r ihl ihr => exact ⟨ihl he.1, ihr he.2⟩
  | _ => exact he.elim

/-- The text of a sum of integers has the value of the sum in 64 bits, but for the overflow of sums
of 32-bit literals inside it. It has just that value if no such sum needs more than 32 bits; where the
whole is such a sum, only then. -/
theorem number_read_text {name : String} {u : CompilationUnit} (h : Program.ofSource name u = .ok p)
    {e : Core.Expr} (he : e.IsIntegerSum p) {L : Letters}
    (hnames : ∀ id ∈ e.globalIds, ∀ g, p.global? id = some g → L.Identifier g.name.toList)
    (hστ : Corresponds p σ τ) :
    ∃ c e' t v, Class.ofCore p = .ok c ∧ Expr.ofCore p e = .ok e' ∧
      Term.read L e'.text = some t ∧ t.number c τ = some v ∧
      v.widen = e.total σ + e.overflow σ ∧
      (e.Fits σ → v.widen = e.total σ) ∧
      (e.isNarrow = true → (v.widen = e.total σ ↔ isWide (e.total σ) = false)) := by
  obtain ⟨file, hfile⟩ := exists_class_ofSource h
  obtain ⟨c, hc, -⟩ := SourceFile.ofCore_eq_ok.mp hfile
  obtain ⟨e', he'⟩ := (exists_exprOfCore e).mpr (inRange_of_isIntegerSum he)
  have hnodup := (Core.wellFormed_ofSource h).globalNames
  refine ⟨c, e', e'.term, emitted σ e, hc, he', read_text_eq_term (readable_ofCore he hnames he'),
    number_term hc hnodup hστ he he', widen_emitted e, fun hfits => ?_, fun hnarrow => ?_⟩
  · rw [widen_emitted, overflow_of_fits hfits, Int64.add_zero]
  · rw [widen_emitted, total_add_overflow hnarrow, toInt64_toInt32_eq_iff]

theorem number_read_text_tally : ∃ c e' t v, Class.ofCore Core.tallyProgram = .ok c ∧
    Expr.ofCore Core.tallyProgram (.sum (.global ⟨0⟩) (.global ⟨1⟩)) = .ok e' ∧
    Term.read .ascii e'.text = some t ∧
    t.number c (fun n => if n = "TOTAL" then 2147483647 else 1) = some v ∧ v.widen = 2147483648 := by
  have hstores : Corresponds Core.tallyProgram (fun id => if id.index = 0 then 2147483647 else 1)
      (fun n => if n = "TOTAL" then 2147483647 else (1 : Int64)) := by
    intro ⟨i⟩ g hg
    match i with
    | 0 | 1 =>
      cases hg
      rfl
    | i + 2 => cases hg
  have hnames : ∀ id ∈ (Core.Expr.sum (.global ⟨0⟩) (.global ⟨1⟩)).globalIds, ∀ g,
      Core.tallyProgram.global? id = some g → Letters.ascii.Identifier g.name.toList := by
    intro id _ g hg
    have hmem : g ∈ Core.tallyProgram.globals := List.mem_of_getElem? hg
    exact (by decide : ∀ g ∈ Core.tallyProgram.globals, Letters.ascii.Identifier g.name.toList) g hmem
  have hprogram : Program.ofSource "Tally" Core.tally = .ok Core.tallyProgram := rfl
  have hsum : (Core.Expr.sum (.global ⟨0⟩) (.global ⟨1⟩)).IsIntegerSum Core.tallyProgram := ⟨rfl, rfl⟩
  obtain ⟨c, e', t, v, hc, he', ht, hv, -, hfits, -⟩ := number_read_text hprogram hsum hnames hstores
  exact ⟨c, e', t, v, hc, he', ht, hv, hfits ⟨trivial, trivial⟩⟩

/-- The largest 32-bit number and one: the program adds in 64 bits and the class in 32. -/
theorem number_read_text_overflow : ∃ p c e t, ∃ v : Number,
    Program.ofSource "Test" { main := [.display none none
      (some (.binary none .plus (.int none 2147483647) (.int none 1)))] } = .ok p ∧
    Class.ofCore p = .ok c ∧ e ∈ p.expressions ∧ e.IsIntegerSum p ∧
    (Expr.ofCore p e).map Expr.text = .ok "2147483647 + 1" ∧
    Term.read .ascii "2147483647 + 1" = some t ∧
    ∀ σ τ, Corresponds p σ τ → t.number c τ = some v ∧ v.widen = -2147483648 ∧
      e.total σ = 2147483648 := by
  have htext : (Expr.binary .plus (.int 2147483647) (.int 1)).text = "2147483647 + 1" := by
    decide +kernel
  have hread := read_text_eq_term (L := .ascii)
    (show (Expr.binary .plus (.int 2147483647) (.int 1)).Readable .ascii from ⟨trivial, trivial⟩)
  rw [htext] at hread
  refine ⟨⟨"Test", [], ⟨"main", [], [.print (.sum (.integer 2147483647) (.integer 1))]⟩, []⟩, _,
    .sum (.integer 2147483647) (.integer 1), _, .int (-2147483648), rfl, rfl, ?_,
    ⟨trivial, trivial⟩, congrArg Except.ok htext, hread, fun σ τ _ => ⟨rfl, rfl, rfl⟩⟩
  exact List.mem_singleton.mpr rfl

end Target

end RpgLowering
